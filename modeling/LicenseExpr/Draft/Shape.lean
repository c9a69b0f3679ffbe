/-
A draft as the list of its nodes in prefix order.

Each kind of node has a fixed number of operands, so the list alone says
how the tree was put together: `ofShape?` puts it together again, and two
drafts are the same tree exactly when their shapes are the same list.
Comparing drafts, and hashing them, goes by the shape. Both directions run
in one loop over a stack and bear trees of any depth.
-/
import LicenseExpr.Draft

namespace LicenseExpr

/-- A node without its operands. -/
inductive Mark (α : Type) where
  | license (license : License)
  | withException (license : License) (exception : String)
  | and
  | or
  | parens
  | foreign (value : α)
deriving DecidableEq, Hashable

namespace Draft

variable {α : Type}

/-- How many nodes a draft has. -/
def size : Draft α → Nat
  | license _ => 1
  | withException _ _ => 1
  | and left right => left.size + right.size + 1
  | or left right => left.size + right.size + 1
  | parens inner => inner.size + 1
  | foreign _ => 1

/-- How many nodes the drafts of a stack have. -/
def stackSize : List (Draft α) → Nat
  | [] => 0
  | draft :: stack => draft.size + stackSize stack

/-- The nodes of the drafts on a stack, from the top down, after `before`,
which is in reverse. -/
def stackShape (before : List (Mark α)) : List (Draft α) → List (Mark α)
  | [] => before.reverse
  | license l :: stack => stackShape (.license l :: before) stack
  | withException l exception :: stack =>
      stackShape (.withException l exception :: before) stack
  | and left right :: stack =>
      stackShape (.and :: before) (left :: right :: stack)
  | or left right :: stack =>
      stackShape (.or :: before) (left :: right :: stack)
  | parens inner :: stack => stackShape (.parens :: before) (inner :: stack)
  | foreign value :: stack => stackShape (.foreign value :: before) stack
termination_by stack => stackSize stack
decreasing_by all_goals simp only [stackSize, size]; omega

/-- The nodes of a draft in prefix order. -/
def shape (draft : Draft α) : List (Mark α) := stackShape [] [draft]

/-- Puts a node on top of a stack of finished drafts, taking its operands
from there. -/
def push? (mark : Mark α) (stack : List (Draft α)) :
    Option (List (Draft α)) :=
  match mark, stack with
  | .license l, stack => some (license l :: stack)
  | .withException l exception, stack =>
      some (withException l exception :: stack)
  | .and, left :: right :: stack => some (and left right :: stack)
  | .or, left :: right :: stack => some (or left right :: stack)
  | .parens, inner :: stack => some (parens inner :: stack)
  | .foreign value, stack => some (foreign value :: stack)
  | _, _ => none

/-- The draft that has the given nodes in prefix order, if there is one. -/
def ofShape? (marks : List (Mark α)) : Option (Draft α) :=
  match marks.foldr (fun mark stack => stack.bind (push? mark)) (some []) with
  | some [draft] => some draft
  | _ => none

end Draft

end LicenseExpr
