/-
A text as a JSON string of ASCII characters.

The string is written unit by unit of UTF-16: a code point up to U+FFFF is
one unit, any other one a pair of surrogates. The quote and the backslash
are escaped, five control characters have short escapes, and every other
unit outside the printable ASCII range is escaped by its number. A text that
holds a pair of surrogates is written like one that holds the code point
which that pair stands for.
-/
import LicenseExpr.Text.CodePoint
import LicenseExpr.Text.Hex

namespace LicenseExpr.Text

/-- The UTF-16 code units of a code point. -/
def units (p : CodePoint) : List Nat :=
  if p.number < 0x10000 then [p.number]
  else
    [0xD800 + (p.number - 0x10000) / 0x400,
      0xDC00 + (p.number - 0x10000) % 0x400]

/-- The UTF-16 code units of a text. -/
def utf16 (text : CodePoints) : List Nat := text.flatMap units

/-- A code unit inside a JSON string. -/
def jsonUnit (unit : Nat) : List Char :=
  if unit = '"'.toNat then ['\\', '"']
  else if unit = '\\'.toNat then ['\\', '\\']
  else if unit = '\n'.toNat then ['\\', 'n']
  else if unit = '\r'.toNat then ['\\', 'r']
  else if unit = '\t'.toNat then ['\\', 't']
  else if unit = '\x08'.toNat then ['\\', 'b']
  else if unit = '\x0c'.toNat then ['\\', 'f']
  else if ' '.toNat ≤ unit && unit ≤ '~'.toNat then [Char.ofNat unit]
  else '\\' :: 'u' :: hex 4 unit

/-- The JSON string of a text. -/
def json {τ : Type} [Script τ] (text : τ) : String :=
  String.ofList
    ('"' :: (utf16 (Script.points text)).flatMap jsonUnit ++ ['"'])

end LicenseExpr.Text
