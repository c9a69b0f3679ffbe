/-
The values that configuration tables and log events hold, and that stand
where an operand should in a tree put together wrongly.

A table keeps its entries in the order they came. `Value.literal` is the
text of a value in messages and in console lines, `Value.json` the text in
JSON lines. There is neither if an integer somewhere in the value has too
many digits.

The texts in a value are ordinary ones, but those in log events may hold
surrogates.
-/
import LicenseExpr.Decimal.Layout
import LicenseExpr.Text.Integer
import LicenseExpr.Text.Json
import LicenseExpr.Text.Quoted
import LicenseExpr.Value.Moment

namespace LicenseExpr

/-- A value of a table or of a log event, with texts of the kind `τ`. -/
inductive Value (τ : Type := String) where
  | null
  | bool (value : Bool)
  | int (value : Int)
  | float (value : Float)
  | text (value : τ)
  | list (items : List (Value τ))
  | table (entries : List (String × Value τ))
  | moment (value : Moment)

/-- A table: its entries in the order they came. -/
abbrev Table (τ : Type := String) : Type := List (String × Value τ)

-- =================================================== literal forms

/-- Texts between brackets, separated by commas. -/
def bracketed (opening closing : String) (parts : List String) : String :=
  opening ++ ", ".intercalate parts ++ closing

/-- A span of time: whole days and the seconds of a day that remain. -/
def spanLiteral (seconds : Int) : String :=
  let days := seconds / 86400
  let rest := seconds % 86400
  bracketed "datetime.timedelta(" ")"
    (if seconds = 0 then ["0"]
    else
      (if days = 0 then [] else [s!"days={days}"])
        ++ if rest = 0 then [] else [s!"seconds={rest}"])

namespace Moment

/-- The numbers of a day. -/
def dayParts (d : Day) : List Nat := [d.year, d.month, d.day]

/-- The numbers of a time of day. What is zero at the end is left out, from
the seconds on. -/
def timeParts (t : TimeOfDay) : List Nat :=
  [t.hour, t.minute]
    ++ if t.microsecond != 0 then [t.second, t.microsecond]
      else if t.second != 0 then [t.second]
      else []

/-- An offset with the name it was written with. -/
def offsetLiteral (hidden : Char → Bool) (offset : Offset) : String :=
  bracketed "datetime.timezone(" ")"
    [spanLiteral offset.seconds, Text.quoted hidden offset.name]

/-- A moment as it is named in messages. -/
def literal (hidden : Char → Bool) : Moment → String
  | day d => bracketed "datetime.date(" ")" ((dayParts d).map toString)
  | time t => bracketed "datetime.time(" ")" ((timeParts t).map toString)
  | dayTime d t offset =>
      bracketed "datetime.datetime(" ")"
        ((dayParts d ++ timeParts t).map toString
          ++ offset.toList.map fun offset =>
            "tzinfo=" ++ offsetLiteral hidden offset)

end Moment

namespace Value

variable {τ : Type} [Script τ]

/-- What stands for no value. -/
def nullLiteral : String := "None"

/-- A truth value as it is named in messages. -/
def boolLiteral (value : Bool) : String := if value then "True" else "False"

mutual

/-- A value as it is named in messages and console lines, where the
characters of the class `hidden` do not show in texts. -/
def literal (hidden : Char → Bool) : Value τ → Except Raised String
  | null => .ok nullLiteral
  | bool value => .ok (boolLiteral value)
  | int value => Text.decimal value
  | float value => .ok (Decimal.plain.text value)
  | text value => .ok (Text.quoted hidden value)
  | list items => return bracketed "[" "]" (← literals hidden items)
  | table entries =>
      return bracketed "\x7b" "\x7d" (← entryLiterals hidden entries)
  | moment value => .ok (value.literal hidden)

/-- The literals of items, in order. -/
def literals (hidden : Char → Bool) :
    List (Value τ) → Except Raised (List String)
  | [] => .ok []
  | item :: items =>
      return (← item.literal hidden) :: (← literals hidden items)

/-- The literals of entries, in order, with their keys. -/
def entryLiterals (hidden : Char → Bool) :
    List (String × Value τ) → Except Raised (List String)
  | [] => .ok []
  | (key, value) :: entries =>
      return (Text.quoted hidden key ++ ": " ++ (← value.literal hidden))
        :: (← entryLiterals hidden entries)

end

/-- A value as text of its own: a text as it is, anything else as its
literal. -/
def plain (hidden : Char → Bool) : Value → Except Raised String
  | text value => .ok value
  | value => value.literal hidden

/-- Numbers in JSON differ from their literals in the words for what is not
finite. -/
def jsonNumbers : Decimal.Layout :=
  { Decimal.plain with infinity := "Infinity", nan := "NaN" }

mutual

/-- A value in a line of JSON. What JSON has no form for is a text there,
its literal. -/
def json (hidden : Char → Bool) : Value τ → Except Raised String
  | null => .ok "null"
  | bool value => .ok (if value then "true" else "false")
  | int value => Text.decimal value
  | float value => .ok (jsonNumbers.text value)
  | text value => .ok (Text.json value)
  | list items => return bracketed "[" "]" (← jsons hidden items)
  | table entries =>
      return bracketed "\x7b" "\x7d" (← jsonMembers hidden entries)
  | moment value => .ok (Text.json (value.literal hidden))

/-- Items in a line of JSON, in order. -/
def jsons (hidden : Char → Bool) :
    List (Value τ) → Except Raised (List String)
  | [] => .ok []
  | item :: items => return (← item.json hidden) :: (← jsons hidden items)

/-- Entries in a line of JSON, in order, with their keys. -/
def jsonMembers (hidden : Char → Bool) :
    List (String × Value τ) → Except Raised (List String)
  | [] => .ok []
  | (key, value) :: entries =>
      return (Text.json key ++ ": " ++ (← value.json hidden))
        :: (← jsonMembers hidden entries)

end

/-- The name of a value's type in messages. -/
def typeName : Value τ → String
  | null => "NoneType"
  | bool _ => "bool"
  | int _ => "int"
  | float _ => "float"
  | text _ => "str"
  | list _ => "list"
  | table _ => "dict"
  | moment (.day _) => "datetime.date"
  | moment (.time _) => "datetime.time"
  | moment (.dayTime _ _ _) => "datetime.datetime"

end Value

end LicenseExpr
