/-
Log records as lines of text.

A line is either a JSON object with everything in it, or made for reading:
when, how grave, what happened and who reports it in columns, and then every
other field by name. A text in such a field is quoted where it would
otherwise be unclear how far it reaches, and else stands there as it is,
surrogates included; so a line is a text of code points. What a stream
writes for a surrogate is its own affair.

A record has no line if one of its values has no text.
-/
import Std.Data.TreeMap.Lemmas
import LicenseExpr.Log.Record

namespace LicenseExpr.Log

/-- The two kinds of lines. -/
inductive Format where
  | console
  | json
deriving DecidableEq

/-- Blanks at the end, up to `width` characters. -/
def padRight (width : Nat) (text : String) : String :=
  text ++ String.ofList (List.replicate (width - text.length) ' ')

/-- A text without the spaces at its end. -/
def trimRight (text : CodePoints) : CodePoints :=
  (text.reverse.dropWhile (· == CodePoint.ofChar ' ')).reverse

/-- Code points that a text must be quoted for. -/
def needsQuotes (p : CodePoint) : Bool :=
  (Text.points " \t=\r\n\"'").contains p

/-- A value in a console line. A text is quoted if it must be, and then the
characters of the class `hidden` do not show. -/
def consoleValue (hidden : Char → Bool) :
    Value CodePoints → Except Raised CodePoints
  | .text text =>
      .ok (if text.any needsQuotes then Text.points (Text.quoted hidden text)
        else text)
  | value => (value.literal hidden).map Text.points

/-- The fields that have a column of their own in a console line. -/
def columns : List String := [timestampKey, levelKey, eventKey, loggerKey]

/-- The other fields of a console line, in ascending order of their
names. -/
def consoleFields (fields : Table CodePoints) : Table CodePoints :=
  (Std.TreeMap.ofList
    (fields.filter fun field => !columns.contains field.1)).toList

/-- What a console line has for some fields behind the columns. -/
def fieldTexts (hidden : Char → Bool) :
    Table CodePoints → Except Raised CodePoints
  | [] => .ok []
  | (key, value) :: fields =>
      return Text.points (" " ++ key ++ "=") ++ (← consoleValue hidden value)
        ++ (← fieldTexts hidden fields)

/-- What a console line begins with, in columns. -/
def header (record : Record) : String :=
  timestamp ++ " [" ++ padRight 9 record.level.name ++ "] "
    ++ padRight 30 record.event ++ " [" ++ loggerLabel record.logger ++ "]"

/-- A record as a line for reading. -/
def consoleLine (hidden : Char → Bool) (record : Record) :
    Except Raised CodePoints :=
  return trimRight (Text.points (header record)
    ++ (← fieldTexts hidden (consoleFields record.complete)))

/-- A record as a JSON object. -/
def jsonLine (hidden : Char → Bool) (record : Record) :
    Except Raised CodePoints :=
  ((Value.table record.complete).json hidden).map Text.points

/-- A record as a line in a given format, where the characters of the class
`hidden` do not show in literals. -/
def line (format : Format) (record : Record)
    (hidden : Char → Bool := Text.isHidden) : Except Raised CodePoints :=
  match format with
  | .console => consoleLine hidden record
  | .json => jsonLine hidden record

/-- The physical lines that a text takes. -/
def physicalLines (text : CodePoints) : List CodePoints :=
  text.splitOn (CodePoint.ofChar '\n')

/-- The physical lines that are written for a record, none if it has no
line. -/
def written (format : Format) (record : Record)
    (hidden : Char → Bool := Text.isHidden) : List CodePoints :=
  match line format record hidden with
  | .ok text => physicalLines text
  | .error _ => []

end LicenseExpr.Log
