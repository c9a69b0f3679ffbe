/-
The tokens of a draft, by recursion on its tree.

As with writing, the walk over a stack of drafts and the recursion below come
to the same list: the walk takes a draft off its stack by listing it.
-/
import LicenseExpr.Draft.Tokens

namespace LicenseExpr.Draft

variable {α : Type}

/-- The licenses and exceptions of a draft in reading order. -/
def listed : Draft α → List String
  | license l => [l.text]
  | withException l exception => [l.text, exception]
  | and left right => left.listed ++ right.listed
  | or left right => left.listed ++ right.listed
  | parens inner => inner.listed
  | foreign _ => []

/-- The walk takes a draft off its stack by listing it. -/
theorem stackTokens_draft (draft : Draft α) (before : List String)
    (stack : List (Draft α)) :
    stackTokens before (draft :: stack)
      = stackTokens (draft.listed.reverse ++ before) stack := by
  induction draft generalizing before stack with
  | license l => rw [stackTokens]; rfl
  | withException l exception => rw [stackTokens]; rfl
  | and left right ihl ihr =>
      rw [stackTokens, ihl, ihr, listed, List.reverse_append,
        List.append_assoc]
  | or left right ihl ihr =>
      rw [stackTokens, ihl, ihr, listed, List.reverse_append,
        List.append_assoc]
  | parens inner ih => rw [stackTokens, ih, listed]
  | foreign value => rw [stackTokens]; rfl

/-- The walk and the recursion list the same. -/
theorem tokens_eq_listed (draft : Draft α) :
    draft.tokens = draft.listed := by
  rw [tokens, stackTokens_draft, stackTokens, List.append_nil,
    List.reverse_reverse]

end LicenseExpr.Draft
