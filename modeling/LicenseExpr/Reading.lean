/-
Reading a whole text as a license expression.

The text must be an expression from end to end, except for blanks around
it. A reading that fails says how far it came: to the parenthesis that opens
one level too many, or to the end of the longest beginning that could be
read together with the blanks after it, or, where nothing could be read, to
the first character that is not blank. Where the stack runs out, it says no
more than where the expression would have begun.

Each reading reports how it ended, in exactly one event, and before that
whether it was held to a lower depth than was asked for.

The text may be of any kind. What is read are its characters; errors and
events have the text itself.
-/
import LicenseExpr.Grammar
import LicenseExpr.Log.Event
import LicenseExpr.Nesting
import LicenseExpr.Text.CodePoint

namespace LicenseExpr

/-- A text that is no license expression, and the offset that the reading
came to. -/
structure ParseError (τ : Type := String) where
  expression : τ
  position : Int := 0
deriving DecidableEq

/-- The text is quoted whole, and the offset is left out. -/
def ParseError.message {τ : Type} [Script τ] (error : ParseError τ) :
    CodePoints :=
  Text.points "Parsing for expression `" ++ Script.points error.expression
    ++ Text.points "` failed."

namespace Expr

open Text

/-- What the rule for expressions makes of a text, where a reading asks for
`maxDepth`. If the stack bears no level at all, it makes nothing of it. -/
def descend (stack : Stack) (maxDepth : Int) (body : List Char) : Outcome :=
  if stack.bears 0 then
    (Grammar.expression (stack.levels maxDepth) body).val
  else .tooDeep body

/-- Reads `text`, in which parentheses may be nested up to `maxDepth` deep,
or as deep as `stack` allows if that is less. -/
def parse {τ : Type} [Script τ] (text : τ) (maxDepth : Int := defaultMaxDepth)
    (stack : Stack := {}) : Logged τ (Except (ParseError τ) Expr) := do
  let cs := Script.chars text
  let body := skipBlanks cs
  let offset (ahead : List Char) : Nat := cs.length - ahead.length
  let limit := stack.readingLimit
  if limit < maxDepth then
    Logged.report (.depthLowered maxDepth limit)
  let depth := min maxDepth limit
  let fail (ahead : List Char) :
      Logged τ (Except (ParseError τ) Expr) := do
    Logged.report (.parseFailed text (offset ahead))
    return .error ⟨text, offset ahead⟩
  match descend stack maxDepth body with
  | .found expr rest =>
      match skipBlanks rest with
      | [] =>
          Logged.report (.parsed text)
          return .ok expr
      | ahead => fail ahead
  | .absent => fail body
  | .tooDeep ahead =>
      if stack.bears depth.toNat then
        Logged.report (.depthExceeded text (offset ahead) depth)
        return .error ⟨text, offset ahead⟩
      else
        Logged.report (.stackExhausted text depth)
        return .error ⟨text, offset body⟩

end Expr

end LicenseExpr
