/-
A text as a quoted literal, on one line.

The quote is `'`, or `"` where the text holds a `'` and no `"`. Inside, the
quote in use and the backslash are escaped, tab, line feed and carriage
return have escapes of their own, and any other code point that does not
show is escaped by its number, in as many digits as it needs. Surrogates
never show.

Which characters do not show can vary with the tables of characters in use,
so the literal can be had for any choice of them.
-/
import LicenseExpr.Text.CodePoint
import LicenseExpr.Text.Hex

namespace LicenseExpr.Text

/-- Characters that do not show, or not reliably: the control characters,
the no-break space, the soft hyphen, the zero-width space, the two
separators and the byte order mark. -/
def isHidden (c : Char) : Bool :=
  c.toNat < 0x20 || (0x7F ≤ c.toNat && c.toNat ≤ 0xA0)
    || c.toNat == 0xAD || c.toNat == 0x200B || c.toNat == 0x2028
    || c.toNat == 0x2029 || c.toNat == 0xFEFF

/-- The quote around a text. -/
def quoteFor (text : CodePoints) : Char :=
  if text.contains (CodePoint.ofChar '\'')
    && !text.contains (CodePoint.ofChar '"') then '"' else '\''

/-- A code point by its number. -/
def numbered (p : CodePoint) : List Char :=
  if p.number < 0x100 then '\\' :: 'x' :: hex 2 p.number
  else if p.number < 0x10000 then '\\' :: 'u' :: hex 4 p.number
  else '\\' :: 'U' :: hex 8 p.number

/-- A code point inside a literal whose quote is `quote`, where the
characters of the class `hidden` do not show. -/
def quotedPoint (hidden : Char → Bool) (quote : Char) (p : CodePoint) :
    List Char :=
  match p.char? with
  | none => numbered p
  | some c =>
      if c == quote || c == '\\' then ['\\', c]
      else if c == '\t' then ['\\', 't']
      else if c == '\n' then ['\\', 'n']
      else if c == '\r' then ['\\', 'r']
      else if hidden c then numbered p
      else [c]

/-- The literal of a text, where the characters of the class `hidden` do
not show. -/
def quoted {τ : Type} [Script τ] (hidden : Char → Bool) (text : τ) : String :=
  let quote := quoteFor (Script.points text)
  String.ofList
    (quote :: (Script.points text).flatMap (quotedPoint hidden quote)
      ++ [quote])

end LicenseExpr.Text
