/-
When operands are equal, and where equal ones first stood.

# Shapes

The walk over a stack of drafts comes to the nodes of a draft in prefix order
(`marks`). Each kind of node has a fixed number of operands, so the nodes
themselves say where a draft ends: whatever stands behind the shape of a
draft, the draft and what stands behind it can be told (`marks_unique`).

# Operands

Comparing by shape is therefore comparing by structure, and an operand equals
another only if it is the same (`LawfulBEq`). Hashing looks at less than
comparing does: a facade and its root are different operands and are hashed
alike. A map has to keep the two apart, and that comparing is lawful is all
it needs.

# Places

A map that has been filled from some operands knows those and no others, each
with the place where it first stood. What is carried through a run is that
an operand that is known already keeps its place, and that one that is not
known gets the place of its first occurrence in what is still to come.
-/
import Mathlib.Data.Set.Card
import Mathlib.Order.Bounds.Basic
import LicenseExpr.Operand

namespace LicenseExpr

namespace Draft

variable {α : Type}

-- ================================================================ shapes

/-- The nodes of a draft in prefix order, by recursion on its tree. -/
def marks : Draft α → List (Mark α)
  | license l => [.license l]
  | withException l exception => [.withException l exception]
  | and left right => .and :: (left.marks ++ right.marks)
  | or left right => .or :: (left.marks ++ right.marks)
  | parens inner => .parens :: inner.marks
  | foreign value => [.foreign value]

/-- The walk takes a draft off its stack by noting its nodes. -/
theorem stackShape_draft (draft : Draft α) (before : List (Mark α))
    (stack : List (Draft α)) :
    stackShape before (draft :: stack)
      = stackShape (draft.marks.reverse ++ before) stack := by
  induction draft generalizing before stack with
  | license l => rw [stackShape]; rfl
  | withException l exception => rw [stackShape]; rfl
  | and left right ihl ihr => rw [stackShape, ihl, ihr]; simp [marks]
  | or left right ihl ihr => rw [stackShape, ihl, ihr]; simp [marks]
  | parens inner ih => rw [stackShape, ih]; simp [marks]
  | foreign value => rw [stackShape]; rfl

/-- The walk and the recursion come to the same nodes. -/
theorem shape_eq_marks (draft : Draft α) : draft.shape = draft.marks := by
  rw [shape, stackShape_draft, stackShape, List.append_nil,
    List.reverse_reverse]

/-- Nodes that begin a list make up the same draft, and what stands behind
them is the same. -/
theorem marks_unique {a b : Draft α} {rest rest' : List (Mark α)}
    (h : a.marks ++ rest = b.marks ++ rest') : a = b ∧ rest = rest' := by
  induction a generalizing b rest rest' with
  | license l => cases b <;> simp_all [marks]
  | withException l exception => cases b <;> simp_all [marks]
  | and left right ihl ihr =>
      cases b with
      | and left' right' =>
          simp only [marks, List.cons_append, List.append_assoc,
            List.cons.injEq, true_and] at h
          obtain ⟨rfl, hright⟩ := ihl h
          obtain ⟨rfl, hrest⟩ := ihr hright
          exact ⟨rfl, hrest⟩
      | _ => simp [marks] at h
  | or left right ihl ihr =>
      cases b with
      | or left' right' =>
          simp only [marks, List.cons_append, List.append_assoc,
            List.cons.injEq, true_and] at h
          obtain ⟨rfl, hright⟩ := ihl h
          obtain ⟨rfl, hrest⟩ := ihr hright
          exact ⟨rfl, hrest⟩
      | _ => simp [marks] at h
  | parens inner ih =>
      cases b with
      | parens inner' =>
          simp only [marks, List.cons_append, List.cons.injEq,
            true_and] at h
          obtain ⟨rfl, hrest⟩ := ih h
          exact ⟨rfl, hrest⟩
      | _ => simp [marks] at h
  | foreign value => cases b <;> simp_all [marks]

/-- A shape in front of others holds as much as the draft does. -/
theorem shape_append_inj {a b : Draft α} {rest rest' : List (Mark α)} :
    a.shape ++ rest = b.shape ++ rest' ↔ a = b ∧ rest = rest' := by
  rw [shape_eq_marks, shape_eq_marks]
  constructor
  · exact marks_unique
  · rintro ⟨rfl, rfl⟩
    rfl

/-- Drafts with the same shape are the same. -/
theorem shape_inj {a b : Draft α} : a.shape = b.shape ↔ a = b := by
  constructor
  · intro h
    exact (shape_append_inj.1 (congrArg (· ++ []) h)).1
  · rintro rfl
    rfl

/-- The drafts that the nodes of a list make up, one behind the other. -/
def assemble? (marks : List (Mark α)) : Option (List (Draft α)) :=
  marks.foldr (fun mark stack => stack.bind (push? mark)) (some [])

theorem assemble?_cons (mark : Mark α) (marks : List (Mark α)) :
    assemble? (mark :: marks) = (assemble? marks).bind (push? mark) := rfl

/-- A draft is put together again from its nodes, in front of whatever the
nodes behind them make up. -/
theorem assemble?_marks (draft : Draft α) (rest : List (Mark α)) :
    assemble? (draft.marks ++ rest) = (assemble? rest).map (draft :: ·) := by
  induction draft generalizing rest with
  | license l =>
      show (assemble? rest).bind (push? (.license l)) = _
      cases assemble? rest <;> rfl
  | withException l exception =>
      show (assemble? rest).bind (push? (.withException l exception)) = _
      cases assemble? rest <;> rfl
  | and left right ihl ihr =>
      rw [marks, List.cons_append, List.append_assoc, assemble?_cons, ihl,
        ihr]
      cases assemble? rest <;> rfl
  | or left right ihl ihr =>
      rw [marks, List.cons_append, List.append_assoc, assemble?_cons, ihl,
        ihr]
      cases assemble? rest <;> rfl
  | parens inner ih =>
      rw [marks, List.cons_append, assemble?_cons, ih]
      cases assemble? rest <;> rfl
  | foreign value =>
      show (assemble? rest).bind (push? (.foreign value)) = _
      cases assemble? rest <;> rfl

/-- A shape holds its draft. -/
theorem ofShape?_shape (draft : Draft α) :
    ofShape? draft.shape = some draft := by
  have h : assemble? draft.shape = some [draft] := by
    rw [shape_eq_marks, ← List.append_nil draft.marks, assemble?_marks]
    rfl
  unfold assemble? at h
  rw [ofShape?, h]

end Draft

namespace Operand

-- ============================================================== operands

/-- Trees are compared by shape, and so by structure. -/
theorem tree_beq_tree {a b : Expr} :
    (tree a == tree b) = true ↔ a = b := by
  show (a.shape == b.shape) = true ↔ _
  rw [beq_iff_eq, Draft.shape_inj]

/-- Facades are compared by their roots. -/
theorem facade_beq_facade {a b : Expr} :
    (facade a == facade b) = true ↔ a = b := tree_beq_tree

/-- Texts are compared as texts. -/
theorem text_beq_text {a b : String} :
    (text a == text b) = true ↔ a = b := by
  show (a == b) = true ↔ _
  rw [beq_iff_eq]

/-- Operands are equal exactly if they are the same. -/
instance : LawfulBEq Operand where
  eq_of_beq {a b} h := by
    cases a with
    | tree a =>
        cases b with
        | tree b => rw [tree_beq_tree.1 h]
        | _ => cases h
    | facade a =>
        cases b with
        | facade b => rw [facade_beq_facade.1 h]
        | _ => cases h
    | text a =>
        cases b with
        | text b => rw [text_beq_text.1 h]
        | _ => cases h
  rfl {a} := by
    cases a with
    | tree a => exact tree_beq_tree.2 rfl
    | facade a => exact facade_beq_facade.2 rfl
    | text a => exact text_beq_text.2 rfl

-- ================================================================ places

variable {place : Nat} {known : Std.HashMap Operand Nat}
  {operands : List (Option Operand)}

/-- An operand is looked up, and put into the map for what follows. -/
theorem firstPlacesFrom_some (a : Operand) :
    firstPlacesFrom place known (some a :: operands)
      = (some (known[a]?.getD place)
          :: (firstPlacesFrom (place + 1) (known.insertIfNew a place)
            operands).1,
        (firstPlacesFrom (place + 1) (known.insertIfNew a place)
          operands).2) := by
  rw [← Std.HashMap.getThenInsertIfNew?_fst,
    ← Std.HashMap.getThenInsertIfNew?_snd]
  rfl

/-- An operand that has just been put into a map is known there at the place
that it had before, or else at the place that it was put in with. -/
theorem getElem?_insertIfNew_self (a : Operand) :
    (known.insertIfNew a place)[a]? = some (known[a]?.getD place) := by
  rw [Std.HashMap.getElem?_insertIfNew]
  by_cases h : a ∈ known
  · rw [if_neg fun hnew => hnew.2 h, Std.HashMap.getElem?_eq_some_getElem h]
    rfl
  · rw [if_pos ⟨beq_self_eq_true a, h⟩,
      Std.HashMap.getElem?_eq_none h]
    rfl

/-- The other operands stay known as they were. -/
theorem getElem?_insertIfNew_of_ne {a b : Operand} (h : a ≠ b) :
    (known.insertIfNew a place)[b]? = known[b]? := by
  rw [Std.HashMap.getElem?_insertIfNew]
  exact if_neg fun hnew => h (eq_of_beq hnew.1)

/-- Each operand is answered with the place at which the map knows it, or
else with that of the first operand like it. -/
theorem firstPlacesFrom_fst :
    (firstPlacesFrom place known operands).1
      = operands.map (Option.map fun a =>
          known[a]?.getD (place + operands.idxOf (some a))) := by
  induction operands generalizing place known with
  | nil => rfl
  | cons operand operands ih =>
      cases operand with
      | none =>
          show none :: (firstPlacesFrom (place + 1) known operands).1 = _
          rw [ih, List.map_cons]
          refine congrArg (none :: ·) (List.map_congr_left fun b _ => ?_)
          refine Option.map_congr fun a _ => ?_
          rw [List.idxOf_cons_ne _ (Option.some_ne_none a).symm]
          congr 1
          omega
      | some a =>
          rw [firstPlacesFrom_some, List.map_cons, ih]
          refine congrArg₂ List.cons ?_ (List.map_congr_left fun b _ => ?_)
          · rw [Option.map_some, List.idxOf_cons_self, Nat.add_zero]
          · refine Option.map_congr fun b _ => ?_
            -- `a` is in the map from now on; any other operand is known as
            -- before, and its first place in the rest is one nearer
            by_cases h : a = b
            · rw [← h, getElem?_insertIfNew_self, List.idxOf_cons_self,
                Nat.add_zero]
              rfl
            · rw [getElem?_insertIfNew_of_ne h,
                List.idxOf_cons_ne _ fun heq => h (Option.some.inj heq)]
              congr 1
              omega

/-- A map knows what it knew and what has been put into it. -/
theorem mem_firstPlacesFrom_snd {a : Operand} :
    a ∈ (firstPlacesFrom place known operands).2
      ↔ a ∈ known ∨ some a ∈ operands := by
  induction operands generalizing place known with
  | nil => simp [firstPlacesFrom]
  | cons operand operands ih =>
      cases operand with
      | none =>
          show a ∈ (firstPlacesFrom (place + 1) known operands).2 ↔ _
          rw [ih]
          simp
      | some b =>
          rw [firstPlacesFrom_some, ih, Std.HashMap.mem_insertIfNew,
            beq_iff_eq, List.mem_cons, Option.some.injEq, eq_comm]
          tauto

/-- Each operand is answered with the place of the first one like it. -/
theorem distinct_fst :
    (distinct operands).1
      = operands.map (Option.map fun a => operands.idxOf (some a)) := by
  show (firstPlacesFrom 0 ∅ operands).1 = _
  rw [firstPlacesFrom_fst]
  simp

/-- There are as many keys as there are different operands. -/
theorem distinct_snd :
    (distinct operands).2 = Set.ncard {a | some a ∈ operands} := by
  classical
  show (firstPlacesFrom 0 ∅ operands).2.size = _
  have hkeys : {a | some a ∈ operands}
      = ((firstPlacesFrom 0 ∅ operands).2.keys.toFinset : Set Operand) := by
    ext a
    simp [mem_firstPlacesFrom_snd]
  rw [hkeys, Set.ncard_coe_finset,
    List.toFinset_card_of_nodup Std.HashMap.nodup_keys,
    Std.HashMap.length_keys]

/-- The first place at which an operand stands is the least one. -/
theorem isLeast_idxOf {a : Operand} (h : some a ∈ operands) :
    IsLeast {j : Nat | operands[j]? = some (some a)}
      (operands.idxOf (some a)) := by
  constructor
  · have hlt := List.idxOf_lt_length_iff.2 h
    exact (List.getElem?_eq_getElem hlt).trans
      (congrArg some (List.getElem_idxOf hlt))
  · intro j hj
    obtain ⟨hlt, hget⟩ := List.getElem?_eq_some_iff.1 hj
    by_contra hless
    have hne := List.not_of_lt_findIdx (Nat.lt_of_not_le hless)
    rw [hget] at hne
    simp at hne

end Operand

/-- Operands are compared by structure. A shape lists the nodes of a tree in
prefix order and, whatever follows it, holds the tree: so trees are equal if
they are the same, with their parentheses and operators. Being equal is an
equivalence and implies equal hashes. Facades are equal if their roots are; a
facade is hashed as its root is and equals no tree and no text. So each of
some operands is found where the first one of its kind and structure stands,
and there are as many keys as there are different operands. -/
theorem operands_equal_by_structure :
    (∀ {α : Type} (t : Draft α),
      t.shape = t.marks ∧ Draft.ofShape? t.shape = some t)
    ∧ (∀ {α : Type} (a b : Draft α) (rest rest' : List (Mark α)),
      a.shape ++ rest = b.shape ++ rest' ↔ a = b ∧ rest = rest')
    ∧ (∀ a b : Expr, (Operand.tree a == Operand.tree b) = true ↔ a = b)
    ∧ Equivalence (fun a b : Operand => (a == b) = true)
    ∧ (∀ a b : Operand, (a == b) = true → hash a = hash b)
    ∧ (∀ a b : Expr, (Operand.facade a == Operand.facade b)
      = (Operand.tree a == Operand.tree b))
    ∧ (∀ (root t : Expr) (s : String),
      (Operand.facade root == Operand.tree t) = false
      ∧ (Operand.tree t == Operand.facade root) = false
      ∧ (Operand.facade root == Operand.text s) = false
      ∧ (Operand.text s == Operand.facade root) = false
      ∧ hash (Operand.facade root) = hash (Operand.tree root))
    ∧ ∀ operands : List (Option Operand),
      (Operand.distinct operands).1.length = operands.length
      ∧ (∀ (i : Nat) (a : Operand), operands[i]? = some (some a) →
        ∃ first, (Operand.distinct operands).1[i]? = some (some first)
          ∧ IsLeast {j : Nat | operands[j]? = some (some a)} first)
      ∧ (Operand.distinct operands).2
        = Set.ncard {a | some a ∈ operands} := by
  refine ⟨fun t => ⟨t.shape_eq_marks, t.ofShape?_shape⟩,
    fun _ _ _ _ => Draft.shape_append_inj, fun _ _ => Operand.tree_beq_tree,
    ⟨beq_self_eq_true, fun h => BEq.symm h, fun h h' => BEq.trans h h'⟩,
    ?_, fun _ _ => rfl, fun _ _ _ => ⟨rfl, rfl, rfl, rfl, rfl⟩, ?_⟩
  · intro a b h
    rw [eq_of_beq h]
  · intro operands
    refine ⟨?_, ?_, Operand.distinct_snd⟩
    · rw [Operand.distinct_fst, List.length_map]
    · intro i a h
      refine ⟨operands.idxOf (some a), ?_,
        Operand.isLeast_idxOf (List.mem_of_getElem? h)⟩
      rw [Operand.distinct_fst, List.getElem?_map, h]
      rfl

end LicenseExpr
