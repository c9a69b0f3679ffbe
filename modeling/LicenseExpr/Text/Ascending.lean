/-
Sets of texts, written as ascending lists.
-/
import Std.Data.TreeSet.Lemmas

namespace LicenseExpr.Text

/-- The members of a list in ascending order of code points, each one
once. -/
def ascending (texts : List String) : List String :=
  (Std.TreeSet.ofList texts).toList

theorem mem_ascending {texts : List String} {text : String} :
    text ∈ ascending texts ↔ text ∈ texts := by
  simp [ascending, Std.TreeSet.mem_toList, Std.TreeSet.mem_ofList]

theorem pairwise_ascending (texts : List String) :
    (ascending texts).Pairwise (· < ·) := by
  have h : (ascending texts).Pairwise fun a b => compare a b = .lt :=
    Std.TreeSet.ordered_toList
  exact h.imp fun hlt => compareOfLessAndEq_eq_lt.1 hlt

end LicenseExpr.Text
