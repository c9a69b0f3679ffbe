/-
How a decimal is laid out as text.

A layout fixes all that the digits leave open: between which powers of ten
a number is written out in full, how many digits an exponent has at least,
and the words for what is not a number. A number that is written out in
full always shows its decimal point.
-/
import LicenseExpr.Decimal.Shortest

namespace LicenseExpr.Decimal

/-- The decisions of a layout. A number is written out in full if its
leading digit stands for a power of ten from `fullFrom` to `fullTo`. -/
structure Layout where
  fullFrom : Int
  fullTo : Int
  exponentDigits : Nat
  infinity : String
  nan : String

/-- Numbers are written out in full from 0.0001 to below ten to the
sixteenth, and exponents have two digits or more. -/
def plain : Layout := ⟨-4, 15, 2, "inf", "nan"⟩

/-- Zeros in front, up to `width` digits. -/
def padded (width n : Nat) : String :=
  let digits := toString n
  String.ofList (List.replicate (width - digits.length) '0') ++ digits

/-- The digits of a number without the zeros at its end. -/
def significant (n : Nat) : List Char :=
  ((Nat.toDigits 10 n).reverse.dropWhile (· == '0')).reverse

namespace Layout

/-- The text of a decimal that is not zero. -/
def magnitude (layout : Layout) (x : Decimal) : String :=
  let digits := significant x.digits
  let leading := (digitCount x.digits : Int) - 1 + x.exponent
  if layout.fullFrom ≤ leading && leading ≤ layout.fullTo then
    if 0 ≤ leading then
      let whole := leading.toNat + 1
      let units := digits.take whole
        ++ List.replicate (whole - digits.length) '0'
      let decimals := digits.drop whole
      String.ofList
        (units ++ '.' :: if decimals = [] then ['0'] else decimals)
    else
      "0." ++ String.ofList
        (List.replicate (-1 - leading).toNat '0' ++ digits)
  else
    let rest := digits.drop 1
    String.ofList (digits.take 1 ++ if rest = [] then [] else '.' :: rest)
      ++ (if leading < 0 then "e-" else "e+")
      ++ padded layout.exponentDigits leading.natAbs

/-- The text of a double. The sign of zero is kept. -/
def text (layout : Layout) (x : Float) : String :=
  let signed (negative : Bool) (text : String) :=
    if negative then "-" ++ text else text
  match Double.ofFloat x with
  | .nan => layout.nan
  | .infinite negative => signed negative layout.infinity
  | .finite negative magnitude =>
      signed negative
        (if magnitude.digits = 0 then "0.0" else layout.magnitude magnitude)

end Layout

end LicenseExpr.Decimal
