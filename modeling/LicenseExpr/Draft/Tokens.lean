/-
The licenses and exceptions that a draft refers to.

A token is the text of a license, qualifiers included, or the name of an
exception. Operators, parentheses and foreign values contribute none. The
tokens of a draft are answered as a set: ascending by code point, each one
once.
-/
import LicenseExpr.Draft.Shape
import LicenseExpr.Text.Ascending

namespace LicenseExpr

namespace Draft

variable {α : Type}

/-- The tokens of the drafts on a stack, from the top down, after `before`,
which is in reverse. -/
def stackTokens (before : List String) : List (Draft α) → List String
  | [] => before.reverse
  | license l :: stack => stackTokens (l.text :: before) stack
  | withException l exception :: stack =>
      stackTokens (exception :: l.text :: before) stack
  | and left right :: stack => stackTokens before (left :: right :: stack)
  | or left right :: stack => stackTokens before (left :: right :: stack)
  | parens inner :: stack => stackTokens before (inner :: stack)
  | foreign _ :: stack => stackTokens before stack
termination_by stack => stackSize stack
decreasing_by all_goals simp only [stackSize, size]; omega

/-- The tokens of a draft in reading order. -/
def tokens (draft : Draft α) : List String := stackTokens [] [draft]

/-- The licenses and exceptions of a draft, ascending and each one once. -/
def licenses (draft : Draft α) : List String :=
  Text.ascending draft.tokens

end Draft

end LicenseExpr
