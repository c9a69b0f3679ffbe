/-
The shortest decimal that reads back as a given binary number.

A binary floating-point number stands for every real that rounds to it: an
interval around `mantissa * 2 ^ exponent` whose ends belong to it exactly
when the mantissa is even. Of all decimals in that interval, the ones with
the fewest digits are wanted, and of those the nearest; an exact tie goes to
the even last digit.

For one digit, two digits and so on up to seventeen, the search looks at
the two neighbours of the number on the grid of decimals with that many
digits, in exact natural arithmetic. If any point of a grid lies in the
interval, one of these two does, and on the grid of seventeen digits one
always does.
-/

namespace LicenseExpr

/-- The natural number `digits` times ten to the power `exponent`. -/
structure Decimal where
  digits : Nat
  exponent : Int
deriving DecidableEq

namespace Decimal

/-- The reals that round to a binary number, over the denominator `unit`:
from `low` to `high` around `value`, the ends included where `closed`. -/
structure Interval where
  low : Nat
  value : Nat
  high : Nat
  unit : Nat
  closed : Bool

/-- How many decimal digits a natural number has. -/
def digitCount (n : Nat) : Nat := (Nat.toDigits 10 n).length

namespace Interval

/-- The interval of `mantissa * 2 ^ exponent`. Below a power of two the
binary numbers lie twice as close, which `narrowBelow` says. -/
def ofBinary (mantissa : Nat) (exponent : Int) (narrowBelow : Bool) :
    Interval :=
  let scale := Nat.pow 2 (exponent - 2).toNat
  { low := (4 * mantissa - if narrowBelow then 1 else 2) * scale
    value := 4 * mantissa * scale
    high := (4 * mantissa + 2) * scale
    unit := Nat.pow 2 (2 - exponent).toNat
    closed := mantissa % 2 == 0 }

/-- The power of ten that the leading digit of the value stands for. -/
def leading (i : Interval) : Int :=
  if i.unit ≤ i.value then
    (digitCount (i.value / i.unit) : Int) - 1
  else
    let count := digitCount (i.unit / i.value)
    if i.unit ≤ i.value * Nat.pow 10 (count - 1) then 1 - (count : Int)
    else - (count : Int)

/-- Whether `point` over the denominator `unit` lies in the interval. -/
def holds (i : Interval) (point : Nat) : Bool :=
  if i.closed then i.low ≤ point && point ≤ i.high
  else i.low < point && point < i.high

/-- The decimal of `count` digits that lies in the interval nearest to its
value, if one lies in it. -/
def onGrid? (i : Interval) (count : Nat) : Option Decimal :=
  let exponent := i.leading - count + 1
  let up := Nat.pow 10 (-exponent).toNat
  let i : Interval :=
    { i with
      low := i.low * up, value := i.value * up, high := i.high * up
      unit := i.unit * Nat.pow 10 exponent.toNat }
  let below := i.value / i.unit
  let above := below + 1
  match i.holds (below * i.unit), i.holds (above * i.unit) with
  | false, false => none
  | true, false => some ⟨below, exponent⟩
  | false, true => some ⟨above, exponent⟩
  | true, true =>
      let down := i.value - below * i.unit
      let gap := above * i.unit - i.value
      if down < gap || (down == gap && below % 2 == 0) then
        some ⟨below, exponent⟩
      else some ⟨above, exponent⟩

/-- The shortest decimal in the interval. -/
def shortest (i : Interval) : Decimal :=
  ((List.range 17).findSome? fun n => i.onGrid? (n + 1)).getD ⟨0, 0⟩

end Interval

/-- What the bits of a double say. -/
inductive Double where
  | nan
  | infinite (negative : Bool)
  | finite (negative : Bool) (magnitude : Decimal)
deriving DecidableEq

/-- A double as its sign and the shortest decimal of its magnitude. -/
def Double.ofFloat (x : Float) : Double :=
  let bits := x.toBits.toNat
  let negative := bits / Nat.pow 2 63 == 1
  let field := bits / Nat.pow 2 52 % Nat.pow 2 11
  let fraction := bits % Nat.pow 2 52
  if field == 2047 then
    if fraction == 0 then .infinite negative else .nan
  else if field == 0 then
    if fraction == 0 then .finite negative ⟨0, 0⟩
    else .finite negative (Interval.ofBinary fraction (-1074) false).shortest
  else
    .finite negative
      (Interval.ofBinary (Nat.pow 2 52 + fraction) ((field : Int) - 1075)
        (fraction == 0 && field != 1)).shortest

end Decimal

end LicenseExpr
