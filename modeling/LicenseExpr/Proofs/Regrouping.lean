/-
What reading makes of a tree that was put together by hand.

Writing shows neither how operators are grouped nor which of them binds
tighter, so a tree of any shape is written as a sequence of factors and
operators, and reading groups the sequence anew. `normalize` does the same
without text: it takes the factors of a tree in reading order, up to the
parentheses and no further, joins those between two ORs with AND and what
comes out with OR, each time from left to right, and does so again inside of
all parentheses.

# What regrouping keeps

The text of a tree, its licenses, how deep it is nested and whether text can
name what it names: each of them is put together from the operands of a node
in a way in which grouping makes no difference (`GroupingFree`). So that
regrouping keeps them is proved once.

# What regrouping does

A normalized tree is grouped as reading groups (`grouped_normalize`), and a
tree that is grouped so stays as it is (`normalize_of_grouped`). A grouped
tree whose names are ones that text can name is normal, so the rest is what
is known of reading the text of a normal tree.
-/
import LicenseExpr.Proofs.Listing
import LicenseExpr.Proofs.Normal

namespace LicenseExpr

-- ==================================================== regrouping trees

/-- The operators that join expressions. -/
inductive Joint where
  | and
  | or
deriving DecidableEq

/-- Two expressions joined. -/
def Joint.join : Joint → Expr → Expr → Expr
  | and => .and
  | or => .or

/-- What stands between two expressions that are joined. -/
def Joint.text : Joint → String
  | and => " AND "
  | or => " OR "

/-- The factors of a tree in reading order, each but the first with the
operator in front of it. -/
structure Region where
  first : Expr
  more : List (Joint × Expr)

namespace Region

/-- One sequence behind the other, with an operator between them. -/
def append (left : Region) (joint : Joint) (right : Region) : Region :=
  ⟨left.first, left.more ++ (joint, right.first) :: right.more⟩

/-- The factors between two ORs, joined with AND from left to right: the
first term, which begins with `first`, and the further ones. -/
def terms (first : Expr) : List (Joint × Expr) → Expr × List Expr
  | [] => (first, [])
  | (.and, factor) :: more => terms (.and first factor) more
  | (.or, factor) :: more =>
      (first, (terms factor more).1 :: (terms factor more).2)

/-- The terms of a sequence, joined with OR from left to right. -/
def group (r : Region) : Expr :=
  (terms r.first r.more).2.foldl .or (terms r.first r.more).1

end Region

namespace Expr

/-- The factors of a tree and the operators between them, with everything
inside of parentheses grouped anew. -/
def region : Expr → Region
  | .license l => ⟨.license l, []⟩
  | .withException l name => ⟨.withException l name, []⟩
  | .and left right => (region left).append .and (region right)
  | .or left right => (region left).append .or (region right)
  | .parens inner => ⟨.parens (region inner).group, []⟩
  | .foreign value => value.elim

/-- The tree that groups the factors and operators of a tree as reading
does. -/
def normalize (t : Expr) : Expr := (region t).group

end Expr

-- ============================================ what regrouping keeps

/-- What can be said of a tree in such a way that it makes no difference how
operators are grouped: it is put together from what is said of the operands,
and it does not matter which two of three are put together first. -/
structure GroupingFree {β : Type} (f : Expr → β) where
  op : Joint → β → β → β
  inside : β → β
  join : ∀ j a b, f (Joint.join j a b) = op j (f a) (f b)
  parens : ∀ a, f (.parens a) = inside (f a)
  assoc : ∀ i j x y z, op j (op i x y) z = op i x (op j y z)

namespace GroupingFree

variable {β : Type} {f : Expr → β} (h : GroupingFree f)
include h

/-- What is said of a sequence of factors that goes on from `x`. -/
def sum (x : β) (more : List (Joint × Expr)) : β :=
  more.foldl (fun x factor => h.op factor.1 x (f factor.2)) x

/-- What is put together first makes no difference to the sum. -/
theorem sum_op (j : Joint) (x y : β) (more : List (Joint × Expr)) :
    h.sum (h.op j x y) more = h.op j x (h.sum y more) := by
  induction more generalizing y with
  | nil => rfl
  | cons factor more ih =>
      show h.sum (h.op factor.1 (h.op j x y) (f factor.2)) more = _
      rw [h.assoc, ih]
      rfl

/-- Terms joined with OR are a sequence of factors of their own. -/
theorem foldl_or (t : Expr) (rest : List Expr) :
    f (rest.foldl .or t) = h.sum (f t) (rest.map (Prod.mk .or)) := by
  induction rest generalizing t with
  | nil => rfl
  | cons u rest ih =>
      show f (rest.foldl .or (.or t u)) = _
      rw [ih]
      show h.sum (f (Joint.join .or t u)) _ = _
      rw [h.join]
      rfl

/-- Grouping a sequence keeps its sum. -/
theorem group (first : Expr) (more : List (Joint × Expr)) :
    f (Region.group ⟨first, more⟩) = h.sum (f first) more := by
  unfold Region.group
  induction more generalizing first with
  | nil => rfl
  | cons factor more ih =>
      obtain ⟨joint, factor⟩ := factor
      cases joint with
      | and =>
          refine (ih (.and first factor)).trans ?_
          show h.sum (f (Joint.join .and first factor)) more = _
          rw [h.join]
          rfl
      | or =>
          -- the terms behind the OR are a sequence of their own
          have hterms := ih factor
          dsimp only at hterms
          rw [h.foldl_or] at hterms
          dsimp only [Region.terms]
          rw [h.foldl_or]
          show h.sum (h.op .or (f first) _) _ = h.sum (h.op .or _ _) more
          rw [h.sum_op, h.sum_op, hterms]

/-- The sum of the factors is what is said of the tree. -/
theorem region (t : Expr) :
    h.sum (f (Expr.region t).first) (Expr.region t).more = f t := by
  have happend (joint : Joint) (left right : Expr)
      (hleft : h.sum (f (Expr.region left).first)
        (Expr.region left).more = f left)
      (hright : h.sum (f (Expr.region right).first)
        (Expr.region right).more = f right) :
      h.sum (f (Expr.region left).first) ((Expr.region left).more
        ++ (joint, (Expr.region right).first) :: (Expr.region right).more)
        = f (joint.join left right) := by
    rw [sum, List.foldl_append]
    show h.sum (h.op joint (h.sum _ _) _) _ = _
    rw [hleft, h.sum_op, hright, h.join]
  induction t with
  | license l => rfl
  | withException l name => rfl
  | and left right ihl ihr => exact happend .and left right ihl ihr
  | or left right ihl ihr => exact happend .or left right ihl ihr
  | parens inner ih =>
      show f (.parens (Expr.region inner).group) = _
      rw [h.parens, h.parens, h.group, ih]
  | foreign value => exact value.elim

/-- Regrouping keeps what does not depend on grouping. -/
theorem normalize (t : Expr) : f t.normalize = f t := by
  rw [Expr.normalize, h.group, h.region]

end GroupingFree

namespace Expr

/-- The text of a tree. -/
def renderFree : GroupingFree render where
  op j x y := x ++ j.text ++ y
  inside x := "(" ++ x ++ ")"
  join j a b := by cases j <;> simp [Joint.join, Joint.text]
  parens a := render_parens a
  assoc i j x y z := by simp only [String.append_assoc]

/-- The licenses and exceptions of a tree in reading order. -/
def listedFree : GroupingFree (Draft.listed : Expr → List String) where
  op _ x y := x ++ y
  inside x := x
  join j a b := by cases j <;> rfl
  parens a := rfl
  assoc i j x y z := List.append_assoc x y z

/-- How deep parentheses stand in parentheses. -/
def nestingFree : GroupingFree (Draft.nesting : Expr → Nat) where
  op _ x y := max x y
  inside x := x + 1
  join j a b := by cases j <;> rfl
  parens a := rfl
  assoc i j x y z := Nat.max_assoc x y z

/-- Whether text can name what the tree names. -/
def wellNamedFree : GroupingFree WellNamed where
  op _ x y := x ∧ y
  inside x := x
  join j a b := by cases j <;> rfl
  parens a := rfl
  assoc i j x y z := propext and_assoc

end Expr

-- ============================================ what regrouping does

/-- The tree is grouped as reading groups, and it is one that a phrase of
the kind `p` can have. -/
def Phrase.Groups (p : Phrase) (t : Expr) : Prop := t.Grouped ∧ p.Admits t

namespace Region

/-- The factors of the sequence are factors, and grouped as reading
groups. -/
def OfFactors (r : Region) : Prop :=
  Phrase.factor.Groups r.first
    ∧ ∀ item ∈ r.more, Phrase.factor.Groups item.2

theorem OfFactors.one {t : Expr} (h : Phrase.factor.Groups t) :
    OfFactors ⟨t, []⟩ :=
  ⟨h, List.forall_mem_nil _⟩

theorem OfFactors.append {left right : Region} (hleft : left.OfFactors)
    (joint : Joint) (hright : right.OfFactors) :
    (left.append joint right).OfFactors :=
  ⟨hleft.1, List.forall_mem_append.2
    ⟨hleft.2, List.forall_mem_cons.2 hright⟩⟩

/-- The terms of a sequence of factors are terms. -/
theorem groups_terms {first : Expr} {more : List (Joint × Expr)}
    (hfirst : Phrase.term.Groups first)
    (hmore : ∀ item ∈ more, Phrase.factor.Groups item.2) :
    Phrase.term.Groups (terms first more).1
      ∧ ∀ u ∈ (terms first more).2, Phrase.term.Groups u := by
  induction more generalizing first with
  | nil => exact ⟨hfirst, List.forall_mem_nil _⟩
  | cons factor more ih =>
      obtain ⟨joint, factor⟩ := factor
      rw [List.forall_mem_cons] at hmore
      obtain ⟨hfactor, hmore⟩ := hmore
      cases joint with
      | and =>
          exact ih ⟨⟨hfirst.1, hfactor.1, hfirst.2, hfactor.2⟩, id⟩ hmore
      | or =>
          obtain ⟨hterm, hterms⟩ := ih ⟨hfactor.1, hfactor.2.2⟩ hmore
          exact ⟨hfirst, List.forall_mem_cons.2 ⟨hterm, hterms⟩⟩

/-- Terms joined with OR are grouped as reading groups. -/
theorem grouped_foldl {t : Expr} {rest : List Expr} (ht : t.Grouped)
    (hrest : ∀ u ∈ rest, Phrase.term.Groups u) :
    (rest.foldl .or t).Grouped := by
  induction rest generalizing t with
  | nil => exact ht
  | cons u rest ih =>
      obtain ⟨hu, hrest⟩ := List.forall_mem_cons.1 hrest
      exact ih ⟨ht, hu⟩ hrest

/-- A sequence of factors is grouped as reading groups. -/
theorem OfFactors.grouped_group {r : Region} (h : r.OfFactors) :
    r.group.Grouped := by
  obtain ⟨hfirst, hmore⟩ := h
  obtain ⟨hterm, hterms⟩ := groups_terms ⟨hfirst.1, hfirst.2.2⟩ hmore
  exact grouped_foldl hterm.1 hterms

/-- A sequence of one term goes on with what follows. -/
theorem terms_append {first t : Expr} {more more' : List (Joint × Expr)}
    (h : terms first more = (t, [])) :
    terms first (more ++ more') = terms t more' := by
  induction more generalizing first with
  | nil => cases h; rfl
  | cons factor more ih =>
      obtain ⟨joint, factor⟩ := factor
      cases joint with
      | and => exact ih h
      | or => cases h

/-- Behind an OR the terms are those of what follows. -/
theorem terms_append_or (first factor : Expr)
    (more more' : List (Joint × Expr)) :
    terms first (more ++ (.or, factor) :: more')
      = ((terms first more).1, (terms first more).2
        ++ (terms factor more').1 :: (terms factor more').2) := by
  induction more generalizing first with
  | nil => rfl
  | cons item more ih =>
      obtain ⟨joint, item⟩ := item
      cases joint with
      | and => exact ih (.and first item)
      | or =>
          show (first, (terms item (more ++ _)).1
            :: (terms item (more ++ _)).2) = _
          rw [ih]
          rfl

end Region

namespace Expr

open Region

/-- The sequence of a tree is one of factors; what stands in parentheses is
grouped already. -/
theorem ofFactors_region (t : Expr) : (region t).OfFactors := by
  induction t with
  | license l => exact .one ⟨trivial, id, id⟩
  | withException l name => exact .one ⟨trivial, id, id⟩
  | and left right ihl ihr => exact ihl.append .and ihr
  | or left right ihl ihr => exact ihl.append .or ihr
  | parens inner ih => exact .one ⟨ih.grouped_group, id, id⟩
  | foreign value => exact value.elim

/-- A normalized tree is grouped as reading groups. -/
theorem grouped_normalize (t : Expr) : t.normalize.Grouped :=
  t.ofFactors_region.grouped_group

/-- Of a tree that is grouped as reading groups, the sequence is grouped to
the tree itself; and if the tree is no OR, the sequence is one term. -/
theorem group_region {t : Expr} (h : t.Grouped) :
    t.region.group = t
      ∧ (¬ t.IsOr → terms t.region.first t.region.more = (t, []))
      ∧ (¬ t.IsAnd → ¬ t.IsOr → t.region = ⟨t, []⟩) := by
  induction t with
  | license l => exact ⟨rfl, fun _ => rfl, fun _ _ => rfl⟩
  | withException l name => exact ⟨rfl, fun _ => rfl, fun _ _ => rfl⟩
  | and left right ihl ihr =>
      obtain ⟨hleft, hright, hor, hfactor⟩ := h
      obtain ⟨-, hterm, -⟩ := ihl hleft
      obtain ⟨-, -, hone⟩ := ihr hright
      have hterms : terms (region (.and left right)).first
          (region (.and left right)).more = (.and left right, []) := by
        show terms (region left).first ((region left).more
          ++ (.and, (region right).first) :: (region right).more) = _
        rw [terms_append (hterm hor), hone hfactor.1 hfactor.2]
        rfl
      refine ⟨?_, fun _ => hterms, fun hand => absurd trivial hand⟩
      rw [group, hterms]
      rfl
  | or left right ihl ihr =>
      obtain ⟨hleft, hright, hor⟩ := h
      obtain ⟨hgroup, -, -⟩ := ihl hleft
      obtain ⟨-, hterm, -⟩ := ihr hright
      refine ⟨?_, fun hor => absurd trivial hor,
        fun _ hor => absurd trivial hor⟩
      show (terms (region left).first ((region left).more
          ++ (.or, (region right).first) :: (region right).more)).2.foldl .or
        (terms (region left).first ((region left).more
          ++ (.or, (region right).first) :: (region right).more)).1 = _
      rw [terms_append_or, hterm hor, List.foldl_append]
      exact congrArg (fun t => Draft.or t right) hgroup
  | parens inner ih =>
      have hone : region (.parens inner) = ⟨.parens inner, []⟩ := by
        rw [region, (ih h).1]
      refine ⟨?_, fun _ => ?_, fun _ _ => hone⟩
      · rw [hone]
        rfl
      · rw [hone]
        rfl
  | foreign value => exact value.elim

/-- A tree that is grouped as reading groups stays as it is. -/
theorem normalize_of_grouped {t : Expr} (h : t.Grouped) :
    t.normalize = t :=
  (group_region h).1

-- ============================================== writing and reading

/-- Regrouping shows neither in the text ... -/
theorem render_normalize (t : Expr) : t.normalize.render = t.render :=
  renderFree.normalize t

/-- ... nor in the licenses of a tree. -/
theorem licenses_normalize (t : Expr) :
    t.normalize.licenses = t.licenses := by
  rw [Draft.licenses, Draft.licenses, Draft.tokens_eq_listed,
    Draft.tokens_eq_listed, listedFree.normalize t]

/-- The text of a tree with names that text can have is read as the tree
regrouped. -/
theorem parse_render_eq_normalize {t : Expr} {maxDepth : Int}
    {stack : Stack} (hnamed : t.WellNamed)
    (hreaches : stack.Reaches maxDepth t.nesting) :
    (parse t.render maxDepth stack).value = .ok t.normalize := by
  rw [← t.render_normalize]
  refine parse_render_iff.2 ⟨⟨?_, t.grouped_normalize⟩, ?_⟩
  · rw [wellNamedFree.normalize t]
    exact hnamed
  · rw [nestingFree.normalize t]
    exact hreaches

end Expr

/-- The text of a tree whose names can be named by text and that is not too
deep is read as the tree regrouped. So writing it again makes the same text
and its licenses are the same; a tree that has been regrouped stays as it
is; and a tree is read back as it was exactly if it is grouped as reading
groups. -/
theorem parse_render_normalize (t : Expr) (maxDepth frames : Int)
    (hnamed : t.WellNamed)
    (hnesting : (t.nesting : Int)
      ≤ max 0 (min maxDepth (Stack.depthLimit { frames }))) :
    (Expr.parse t.render maxDepth { frames }).value = .ok t.normalize
    ∧ t.normalize.render = t.render
    ∧ t.normalize.licenses = t.licenses
    ∧ ((Expr.parse t.render maxDepth { frames }).value = .ok t ↔ t.Grouped)
    ∧ ∀ u : Expr, u.normalize.normalize = u.normalize := by
  rw [← Stack.reaches_frames_iff] at hnesting
  refine ⟨Expr.parse_render_eq_normalize hnamed hnesting,
    t.render_normalize, t.licenses_normalize, ?_,
    fun u => Expr.normalize_of_grouped u.grouped_normalize⟩
  rw [Expr.parse_render_iff, and_iff_left hnesting]
  exact ⟨fun hnormal => hnormal.grouped, fun hgrouped => ⟨hnamed, hgrouped⟩⟩

/-- An AND of two ORs is read as an OR of three terms. -/
theorem parse_render_normalize_of_and :
    let name (id : String) : Expr := .license ⟨id, none, false⟩
    let t : Expr :=
      .and (.or (name "A") (name "B")) (.or (name "C") (name "D"))
    t.WellNamed
    ∧ (Expr.parse t.render).value
        = .ok (.or (.or (name "A") (.and (name "B") (name "C"))) (name "D"))
    ∧ (Expr.parse t.render).value ≠ .ok t := by
  have hname (id : String) (h : IsExceptionName id) :
      Expr.WellNamed (.license ⟨id, none, false⟩) := h.wellFormed
  have hnamed : Expr.WellNamed
      (.and (.or (.license ⟨"A", none, false⟩) (.license ⟨"B", none, false⟩))
        (.or (.license ⟨"C", none, false⟩)
          (.license ⟨"D", none, false⟩))) :=
    ⟨⟨hname "A" (by decide), hname "B" (by decide)⟩,
      hname "C" (by decide), hname "D" (by decide)⟩
  obtain ⟨hparse, -, -, hback, -⟩ :=
    parse_render_normalize _ defaultMaxDepth 1000 hnamed (by decide)
  refine ⟨hnamed, hparse, fun h => ?_⟩
  obtain ⟨-, -, hor, -⟩ := hback.1 h
  exact hor trivial

end LicenseExpr
