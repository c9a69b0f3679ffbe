/-
Reading a decimal as the nearest double.

A numeral is an optional sign and either a word for infinity or for no
number, or digits with an optional decimal point and an optional exponent.
Letters may be of either case, single underscores may stand between digits,
and blanks around the numeral do not count. The power of ten of a numeral
may be out of all proportion; far outside the range of doubles it is not
computed.
-/

namespace LicenseExpr.Decimal

/-- The value of a run of decimal digits. -/
def digitsValue (digits : List Char) : Nat :=
  digits.foldl (fun n c => 10 * n + (c.toNat - '0'.toNat)) 0

/-- The double nearest to `digits * 10 ^ exponent`. Magnitudes above ten to
the 400th are infinite, and below its inverse they vanish. -/
def nearest (digits : Nat) (exponent : Int) : Float :=
  let leading := ((Nat.toDigits 10 digits).length : Int) + exponent
  if digits = 0 || leading < -400 then 0.0
  else if 400 < leading then Float.ofScientific 1 false 400
  else Float.ofScientific digits (exponent < 0) exponent.natAbs

/-- The exponent of a numeral, or zero if it has none. -/
def readExponent? : List Char → Option Int
  | [] => some 0
  | mark :: rest =>
      if mark != 'e' && mark != 'E' then none
      else
        let (negative, digits) :=
          match rest with
          | '-' :: digits => (true, digits)
          | '+' :: digits => (false, digits)
          | digits => (false, digits)
        if digits = [] || !digits.all Char.isDigit then none
        else
          let value : Int := digitsValue digits
          some (if negative then -value else value)

/-- The words for infinity. -/
def infinityWords : List String := ["inf", "infinity"]

/-- The word for what is no number. -/
def nanWord : String := "nan"

/-- The magnitude of a numeral without sign, blanks and underscores. -/
def readMagnitude? (cs : List Char) : Option Float :=
  let word := String.ofList (cs.map Char.toLower)
  if infinityWords.contains word then some (1.0 / 0.0)
  else if word == nanWord then some (0.0 / 0.0)
  else
    let whole := cs.takeWhile Char.isDigit
    let rest := cs.dropWhile Char.isDigit
    let (decimals, rest) :=
      match rest with
      | '.' :: rest =>
          (rest.takeWhile Char.isDigit, rest.dropWhile Char.isDigit)
      | rest => ([], rest)
    if whole = [] && decimals = [] then none
    else do
      let exponent ← readExponent? rest
      some (nearest (digitsValue (whole ++ decimals))
        (exponent - decimals.length))

/-- A numeral without its underscores, each of which must stand between two
digits. Whether a digit stands in front is said by `afterDigit`. -/
def ungrouped? (afterDigit : Bool) : List Char → Option (List Char)
  | [] => some []
  | c :: rest =>
      if c == '_' then
        if afterDigit && rest.head?.any Char.isDigit then
          ungrouped? false rest
        else none
      else (ungrouped? c.isDigit rest).map (c :: ·)

/-- Blanks around a numeral: the space, and the control characters that
move to another place or line. -/
def isOuterBlank (c : Char) : Bool := c == ' ' || ('\t' ≤ c && c ≤ '\r')

/-- A text without blanks at either end. -/
def trimmed (cs : List Char) : List Char :=
  ((cs.dropWhile isOuterBlank).reverse.dropWhile isOuterBlank).reverse

/-- The double that a numeral stands for. -/
def read? (numeral : String) : Option Float := do
  match ← ungrouped? false (trimmed numeral.toList) with
  | '-' :: rest => (readMagnitude? rest).map fun x => -x
  | '+' :: rest => readMagnitude? rest
  | rest => readMagnitude? rest

end LicenseExpr.Decimal
