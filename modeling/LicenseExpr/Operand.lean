/-
Comparing expressions and texts, and telling how many different ones there
are.

What can be compared is a tree, a tree in its facade, or a text. Trees are
compared by shape, so grouping counts. A facade is equal only to another
facade of an equal tree, although it is hashed exactly as the tree in it:
a hash may agree where equality does not, and never the other way around.
-/
import Std.Data.HashMap
import LicenseExpr.Draft.Shape

namespace LicenseExpr

/-- Something that can be compared. -/
inductive Operand where
  | tree (tree : Expr)
  /-- A tree as the single value that users of the library hold. -/
  | facade (root : Expr)
  | text (text : String)

/-- There is nothing to hash. -/
instance hashableEmpty : Hashable Empty := ⟨nofun⟩

/-- What hashing looks at. -/
inductive Digest where
  | shape (marks : List (Mark Empty))
  | text (text : String)
deriving DecidableEq, Hashable

namespace Operand

/-- Two operands are equal if they are of the same kind and their trees have
the same shape, or their texts are the same. -/
def same : Operand → Operand → Bool
  | tree a, tree b => a.shape == b.shape
  | facade a, facade b => a.shape == b.shape
  | text a, text b => a == b
  | _, _ => false

/-- The tree in a facade is hashed as if it stood alone. -/
def digest : Operand → Digest
  | tree root => .shape root.shape
  | facade root => .shape root.shape
  | text t => .text t

instance : BEq Operand := ⟨same⟩

instance : Hashable Operand := ⟨fun operand => hash operand.digest⟩

/-- Puts operands one by one into a map that keeps, for each different one,
the place where it first stood, and answers that place for each of them. -/
def firstPlacesFrom (place : Nat) (known : Std.HashMap Operand Nat) :
    List (Option Operand) → List (Option Nat) × Std.HashMap Operand Nat
  | [] => ([], known)
  | none :: operands =>
      let (places, known) := firstPlacesFrom (place + 1) known operands
      (none :: places, known)
  | some operand :: operands =>
      let (first, known) := known.getThenInsertIfNew? operand place
      let (places, known) := firstPlacesFrom (place + 1) known operands
      (some (first.getD place) :: places, known)

/-- For each operand the place of the first one equal to it, and how many
different ones there are. A place without an operand counts as a place. -/
def distinct (operands : List (Option Operand)) :
    List (Option Nat) × Nat :=
  let (places, known) := firstPlacesFrom 0 ∅ operands
  (places, known.size)

end Operand

end LicenseExpr
