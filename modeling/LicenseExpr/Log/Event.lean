/-
What the library reports while it works.

Reading an expression and looking for a settings file report events. An
event is a value: it is answered along with the result, in the order of
reporting, and it is for a session to decide whether it is written out.
`Logged` pairs a result with the events on the way to it.

The texts in events are of the kind that the reading was given.
-/
import LicenseExpr.Value

namespace LicenseExpr

/-- An event of the library, with texts of the kind `τ`. All of them are for
debugging. -/
inductive Event (τ : Type := String) where
  /-- A depth was asked for that is above the limit, and lowered to it. -/
  | depthLowered (requested limit : Int)
  /-- A text was read as an expression. -/
  | parsed (expression : τ)
  /-- A text is no expression. -/
  | parseFailed (expression : τ) (position : Nat)
  /-- A text opens more parentheses than it may. -/
  | depthExceeded (expression : τ) (position : Nat) (maxDepth : Int)
  /-- A text opens more parentheses than the stack bears. -/
  | stackExhausted (expression : τ) (maxDepth : Int)
  /-- There is no settings file, and the defaults hold. -/
  | settingsNotFound (path : τ)
deriving DecidableEq

namespace Event

variable {τ σ : Type}

/-- The name under which an event is reported. -/
def name : Event τ → String
  | depthLowered _ _ => "spdx_max_depth_lowered"
  | parsed _ => "spdx_parsed"
  | parseFailed _ _ => "spdx_parse_failed"
  | depthExceeded _ _ _ => "spdx_max_depth_exceeded"
  | stackExhausted _ _ => "spdx_recursion_limit_hit"
  | settingsNotFound _ => "config_not_found"

/-- The name of the logger that reports an event. -/
def logger : Event τ → String
  | settingsNotFound _ => "spdx_expression.config"
  | _ => "spdx_expression.parser"

/-- The data of an event, in the order in which it is written. -/
def fields : Event τ → Table τ
  | depthLowered requested limit =>
      [("requested", .int requested), ("max_depth", .int limit)]
  | parsed expression => [("expression", .text expression)]
  | parseFailed expression position =>
      [("expression", .text expression), ("position", .int position)]
  | depthExceeded expression position maxDepth =>
      [("expression", .text expression), ("position", .int position),
        ("max_depth", .int maxDepth)]
  | stackExhausted expression maxDepth =>
      [("expression", .text expression), ("max_depth", .int maxDepth)]
  | settingsNotFound path => [("path", .text path)]

/-- The event with other texts. -/
def map (f : τ → σ) : Event τ → Event σ
  | depthLowered requested limit => depthLowered requested limit
  | parsed expression => parsed (f expression)
  | parseFailed expression position => parseFailed (f expression) position
  | depthExceeded expression position maxDepth =>
      depthExceeded (f expression) position maxDepth
  | stackExhausted expression maxDepth =>
      stackExhausted (f expression) maxDepth
  | settingsNotFound path => settingsNotFound (f path)

end Event

/-- A result, and the events on the way to it. -/
structure Logged (τ α : Type) where
  events : List (Event τ)
  value : α

namespace Logged

variable {τ σ α : Type}

/-- Of two steps, the events of the first come first. -/
instance : Monad (Logged τ) where
  pure value := ⟨[], value⟩
  bind step next :=
    let rest := next step.value
    ⟨step.events ++ rest.events, rest.value⟩

/-- Reports an event. -/
def report (event : Event τ) : Logged τ Unit := ⟨[event], ()⟩

/-- The same with other texts in the events. -/
def mapTexts (f : τ → σ) (logged : Logged τ α) : Logged σ α :=
  ⟨logged.events.map (Event.map f), logged.value⟩

end Logged

end LicenseExpr
