/-
The errors of the library, in one type.

A fault is the reason why an operation has no answer, as a value. A document
that is malformed has no message.

Three kinds of error are public and form a family: every error of the
library, and of these the unreadable expressions and the bad settings. An
unreadable expression also counts as a bad value. Any other error that an
operation can end in is none of the library's own (`Raised`).

A refusal of settings becomes an error through its message. Where the
message cannot be made, what came up on the way is the error.
-/
import LicenseExpr.Reading
import LicenseExpr.Settings.File

namespace LicenseExpr

/-- Why an operation has no answer. -/
inductive Fault where
  /-- A text is no expression. -/
  | unreadable (error : ParseError CodePoints)
  /-- Settings are refused. -/
  | settings (message : String)
  /-- A text is no document. -/
  | malformed
  /-- Something else came up. -/
  | raised (error : Raised)

namespace Fault

/-- A text that is no expression. -/
def ofReading {τ : Type} [Script τ] (error : ParseError τ) : Fault :=
  .unreadable ⟨Script.points error.expression, error.position⟩

/-- The error about settings that are refused, where `literal` shows
values. -/
def ofSettings (literal : Value → Except Raised String)
    (fault : SettingsFault) : Fault :=
  match fault.message literal with
  | .ok message => .settings message
  | .error error => .raised error

/-- The error about settings that could not be loaded. -/
def ofLoading (literal : Value → Except Raised String) : LoadFault → Fault
  | .system error => .raised error
  | .undecodable fault => .raised ⟨"UnicodeDecodeError", fault.message⟩
  | .malformed => .malformed
  | .toolsNotATable value => .raised (.noMember value.typeName "get")
  | .settings fault => ofSettings literal fault

/-- What is said about a fault. -/
def message? : Fault → Option CodePoints
  | unreadable error => some error.message
  | settings message => some (Text.points message)
  | malformed => none
  | raised error => some (Text.points error.message)

end Fault

namespace Settings

/-- The settings that a table gives, or the error about the table, where
`literal` shows values. -/
def checked (literal : Value → Except Raised String) (table : Table)
    (stack : Stack := {}) : Except Fault Settings :=
  (ofTable table stack).mapError (Fault.ofSettings literal)

/-- The settings that a file gives, or the error about the file, where
`literal` shows values. -/
def loaded (literal : Value → Except Raised String) (file : SettingsFile)
    (stack : Stack := {}) : Logged String (Except Fault Settings) :=
  return (← load file stack).mapError (Fault.ofLoading literal)

end Settings

/-- The public kinds of error. -/
inductive ErrorKind where
  | general
  | parse
  | settings
deriving DecidableEq

/-- The names of a kind and of all the kinds it belongs to, from the nearest
to the widest. -/
def ErrorKind.lineage : ErrorKind → List String
  | general => ["SpdxExpressionError", "Exception", "BaseException", "object"]
  | parse =>
      ["ParseError", "SpdxExpressionError", "ValueError", "Exception",
        "BaseException", "object"]
  | settings =>
      ["ConfigError", "SpdxExpressionError", "Exception", "BaseException",
        "object"]

/-- An error as its users see it. -/
structure ErrorView where
  message : CodePoints
  expression : Option CodePoints
  position : Option Int
  lineage : List String
deriving DecidableEq

/-- The message of an error that has nothing but a message: the text it was
made from, or both things that it was made from. -/
def messageOf (hidden : Char → Bool) (text : CodePoints) :
    Option Int → Except Raised CodePoints
  | none => .ok text
  | some position =>
      return Text.points (bracketed "(" ")"
        [Text.quoted hidden text, ← Text.decimal position])

/-- An error of a given kind, made from a text and possibly a position. For
an unreadable expression these are its expression and how far the reading
came, from the start on where nothing is said. Errors of the other kinds
have a message instead. -/
def ErrorKind.view (kind : ErrorKind) (text : CodePoints)
    (position : Option Int) (hidden : Char → Bool := Text.isHidden) :
    Except Raised ErrorView :=
  match kind with
  | parse =>
      let error : ParseError CodePoints := ⟨text, position.getD 0⟩
      .ok ⟨error.message, some error.expression, some error.position,
        kind.lineage⟩
  | general =>
      return ⟨← messageOf hidden text position, none, none, kind.lineage⟩
  | settings =>
      return ⟨← messageOf hidden text position, none, none, kind.lineage⟩

end LicenseExpr
