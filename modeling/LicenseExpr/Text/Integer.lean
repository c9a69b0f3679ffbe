/-
Integers as text.

Whole numbers are written in decimal, up to a number of digits that nobody
reads. A number with more digits has no text.
-/
import LicenseExpr.Raised

namespace LicenseExpr.Text

/-- The greatest number of digits that an integer is written in. -/
def maxDigits : Nat := 4300

/-- The least number that needs more digits. -/
def digitsBound : Nat := Nat.pow 10 maxDigits

/-- An integer in decimal, if it does not have too many digits. -/
def decimal (n : Int) : Except Raised String :=
  if n.natAbs < digitsBound then .ok (toString n)
  else .error .tooManyDigits

theorem decimal_of_lt {n : Int} (h : n.natAbs < digitsBound) :
    decimal n = .ok (toString n) :=
  if_pos h

theorem decimal_of_le {n : Int} (h : digitsBound ≤ n.natAbs) :
    decimal n = .error .tooManyDigits :=
  if_neg (Nat.not_lt.2 h)

end LicenseExpr.Text
