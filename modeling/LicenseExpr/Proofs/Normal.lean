/-
The trees that have a text of their own.

Writing adds no parentheses, so a tree whose grouping only parentheses could
show is written as another tree is. A tree is normal if this does not happen
at any of its nodes (`Grouped`) and its licenses and exceptions are ones that
text can name (`WellNamed`). These are exactly the trees of derivations: a
derivation has a normal tree, and a normal tree is derived by the text it is
written as.

With reading being exactly the grammar, that makes reading and writing
inverse to each other on the normal trees and nowhere else.
-/
import LicenseExpr.Proofs.Acceptance
import LicenseExpr.Proofs.Writing

namespace LicenseExpr

open Text

-- ======================================================== normal trees

namespace Expr

/-- The tree is made by AND. -/
def IsAnd : Expr → Prop
  | .and _ _ => True
  | _ => False

/-- The tree is made by OR. -/
def IsOr : Expr → Prop
  | .or _ _ => True
  | _ => False

/-- What the tree names can be named by text, whatever its shape is. -/
def WellNamed : Expr → Prop
  | .license l => l.WellFormed
  | .withException l name => l.WellFormed ∧ IsExceptionName name
  | .and left right => WellNamed left ∧ WellNamed right
  | .or left right => WellNamed left ∧ WellNamed right
  | .parens inner => WellNamed inner

/-- The operators of the tree are grouped as reading groups them: AND binds
tighter than OR, and both group to the left. -/
def Grouped : Expr → Prop
  | .license _ => True
  | .withException _ _ => True
  | .and left right => Grouped left ∧ Grouped right
      ∧ ¬ IsOr left ∧ ¬ IsAnd right ∧ ¬ IsOr right
  | .or left right => Grouped left ∧ Grouped right ∧ ¬ IsOr right
  | .parens inner => Grouped inner

/-- The tree has a text of its own: what it names can be named by text, and
at every node the operands bind tighter than the node or stand to its
left. -/
structure Normal (t : Expr) : Prop where
  wellNamed : t.WellNamed
  grouped : t.Grouped

end Expr

/-- The trees that a kind of phrase can have, by their topmost node. -/
def Phrase.Admits : Phrase → Expr → Prop
  | factor, t => ¬ t.IsAnd ∧ ¬ t.IsOr
  | term, t => ¬ t.IsOr
  | expression, _ => True

-- ================================================ from derivations ...

/-- The tree of a derivation is normal, and one of those that its kind of
phrase can have. -/
theorem Derivation.normal {p : Phrase} (d : Derivation p) :
    d.tree.Normal ∧ p.Admits d.tree := by
  induction d with
  | license l wellFormed => exact ⟨⟨wellFormed, trivial⟩, id, id⟩
  | withException l wellFormed word name isName =>
      exact ⟨⟨⟨wellFormed, isName⟩, trivial⟩, id, id⟩
  | parens opening inner closing ih =>
      exact ⟨⟨ih.1.wellNamed, ih.1.grouped⟩, id, id⟩
  | factor only ih => exact ⟨ih.1, ih.2.2⟩
  | and left word right ihl ihr =>
      obtain ⟨hleft, hor⟩ := ihl
      obtain ⟨hright, hfactor⟩ := ihr
      exact ⟨⟨⟨hleft.wellNamed, hright.wellNamed⟩,
        hleft.grouped, hright.grouped, hor, hfactor⟩, id⟩
  | term only ih => exact ⟨ih.1, trivial⟩
  | or left word right ihl ihr =>
      obtain ⟨hleft, -⟩ := ihl
      obtain ⟨hright, hor⟩ := ihr
      exact ⟨⟨⟨hleft.wellNamed, hright.wellNamed⟩,
        hleft.grouped, hright.grouped, hor⟩, trivial⟩

-- ================================================ ... and back to them

/-- An operator as it is written: in capital letters, with one blank on
either side. -/
def Spelling.plain (word : String) (h : Spells word.toList word) :
    Spelling word :=
  ⟨[' '], word.toList, [' '], by decide, h, by decide⟩

/-- The tree is derived as a kind of phrase by the text it is written as. -/
def WrittenAs (p : Phrase) (t : Expr) : Prop :=
  ∃ d : Derivation p, d.tree = t ∧ d.text = t.render.toList

/-- A term alone is an expression. -/
theorem WrittenAs.of_term {t : Expr} (h : WrittenAs .term t) :
    WrittenAs .expression t := by
  obtain ⟨d, htree, htext⟩ := h
  exact ⟨.term d, htree, htext⟩

/-- A factor alone is a phrase of any kind. -/
theorem WrittenAs.of_factor {p : Phrase} {t : Expr}
    (h : WrittenAs .factor t) : WrittenAs p t := by
  obtain ⟨d, htree, htext⟩ := h
  cases p with
  | factor => exact ⟨d, htree, htext⟩
  | term => exact ⟨.factor d, htree, htext⟩
  | expression => exact ⟨.term (.factor d), htree, htext⟩

/-- A normal tree is derived by the text it is written as, as each kind of
phrase that can have it. -/
theorem Expr.Normal.writtenAs {t : Expr} (h : t.Normal) {p : Phrase}
    (hp : p.Admits t) : WrittenAs p t := by
  obtain ⟨hnamed, hgrouped⟩ := h
  induction t generalizing p with
  | license l =>
      exact .of_factor ⟨.license l hnamed, rfl, by simp [Derivation.text]⟩
  | withException l name =>
      refine .of_factor ⟨.withException l hnamed.1
        (.plain "WITH" (by decide)) name hnamed.2, rfl, ?_⟩
      simp [Derivation.text, Spelling.text, Spelling.plain]
  | and left right ihl ihr =>
      obtain ⟨hleft, hright, hor, hfactor⟩ := hgrouped
      obtain ⟨d, rfl, hd⟩ := ihl (p := .term) hor hnamed.1 hleft
      obtain ⟨e, rfl, he⟩ := ihr (p := .factor) hfactor hnamed.2 hright
      have hterm : WrittenAs .term (.and d.tree e.tree) := by
        refine ⟨.and d (.plain "AND" (by decide)) e, rfl, ?_⟩
        simp [Derivation.text, Spelling.text, Spelling.plain, hd, he]
      cases p with
      | factor => exact absurd trivial hp.1
      | term => exact hterm
      | expression => exact hterm.of_term
  | or left right ihl ihr =>
      obtain ⟨hleft, hright, hor⟩ := hgrouped
      obtain ⟨d, rfl, hd⟩ := ihl (p := .expression) trivial hnamed.1 hleft
      obtain ⟨e, rfl, he⟩ := ihr (p := .term) hor hnamed.2 hright
      cases p with
      | factor => exact absurd trivial hp.2
      | term => exact absurd trivial hp
      | expression =>
          refine ⟨.or d (.plain "OR" (by decide)) e, rfl, ?_⟩
          simp [Derivation.text, Spelling.text, Spelling.plain, hd, he]
  | parens inner ih =>
      obtain ⟨d, rfl, hd⟩ := ih (p := .expression) trivial hnamed hgrouped
      refine .of_factor ⟨.parens ⟨[], by simp⟩ d ⟨[], by simp⟩, rfl, ?_⟩
      simp [Derivation.text, hd]
  | foreign value => exact value.elim

/-- Normal trees that are written the same are the same. -/
theorem Expr.Normal.eq_of_render_eq {t t' : Expr} (h : t.Normal)
    (h' : t'.Normal) (heq : t.render = t'.render) : t = t' := by
  obtain ⟨d, rfl, hd⟩ := h.writtenAs (p := .expression) trivial
  obtain ⟨d', rfl, hd'⟩ := h'.writtenAs (p := .expression) trivial
  -- the texts they are derived by are the same, and a text has one derivation
  -- at most
  have hsame : (⟨⟨[], by simp⟩, d, ⟨[], by simp⟩⟩ : Sentence)
      = ⟨⟨[], by simp⟩, d', ⟨[], by simp⟩⟩ := by
    refine Sentence.eq_of_text_eq ?_
    simp [Sentence.text, hd, hd', heq]
  exact congrArg Sentence.tree hsame

-- ================================================= reading and writing

namespace Expr

variable {τ : Type} [Script τ] {text : τ} {maxDepth : Int} {stack : Stack}
  {t : Expr}

/-- Reading answers normal trees only, nested no deeper than it may go. -/
theorem normal_of_parse (h : (parse text maxDepth stack).value = .ok t) :
    t.Normal ∧ stack.Reaches maxDepth t.nesting := by
  obtain ⟨s, -, rfl, hreaches⟩ := parse_eq_ok_iff.1 h
  exact ⟨s.body.normal.1, hreaches⟩

/-- A tree is read back from its text exactly if it is normal and nested no
deeper than the reading may go. -/
theorem parse_render_iff :
    (parse t.render maxDepth stack).value = .ok t ↔
      t.Normal ∧ stack.Reaches maxDepth t.nesting := by
  refine ⟨normal_of_parse, ?_⟩
  intro h
  obtain ⟨hnormal, hreaches⟩ := h
  obtain ⟨d, rfl, hd⟩ := hnormal.writtenAs (p := .expression) trivial
  refine parse_eq_ok_iff.2 ⟨⟨⟨[], by simp⟩, d, ⟨[], by simp⟩⟩, ?_, rfl,
    hreaches⟩
  show _ = d.tree.render.toList
  simp [Sentence.text, hd]

end Expr

/-- What is read is normal; a tree is read back from its text exactly if it
is normal and nested no deeper than was asked for and the stack allows; and
so what is read once is read again from its own text. -/
theorem parse_render_inverse :
    (∀ {τ : Type} [Script τ] (text : τ) maxDepth stack t,
      (Expr.parse text maxDepth stack).value = .ok t → t.Normal)
    ∧ (∀ (t : Expr) (maxDepth frames : Int),
      (Expr.parse t.render maxDepth { frames }).value = .ok t ↔
        t.Normal ∧ (t.nesting : Int)
          ≤ max 0 (min maxDepth (Stack.depthLimit { frames })))
    ∧ (∀ {τ : Type} [Script τ] (text : τ) maxDepth stack t,
      (Expr.parse text maxDepth stack).value = .ok t →
      (Expr.parse t.render maxDepth stack).value = .ok t) := by
  refine ⟨fun _ _ _ _ h => (Expr.normal_of_parse h).1, ?_,
    fun _ _ _ _ h => Expr.parse_render_iff.2 (Expr.normal_of_parse h)⟩
  intro t maxDepth frames
  rw [Expr.parse_render_iff, Stack.reaches_frames_iff]

/-- A list that was read is read again from its own text; the same licenses
grouped to the right are not. -/
theorem parse_render_inverse_of_list :
    (Expr.parse "A OR B OR C").value
        = .ok (.or (.or (.license ⟨"A", none, false⟩)
            (.license ⟨"B", none, false⟩)) (.license ⟨"C", none, false⟩))
    ∧ (Expr.parse (Expr.render (.or (.license ⟨"A", none, false⟩)
          (.or (.license ⟨"B", none, false⟩)
            (.license ⟨"C", none, false⟩))))).value
        ≠ .ok (.or (.license ⟨"A", none, false⟩)
          (.or (.license ⟨"B", none, false⟩)
            (.license ⟨"C", none, false⟩))) := by
  constructor
  · have h := parse_render_inverse.2.2 "A or B\tor C"
      defaultMaxDepth {} (.or
      (.or (.license ⟨"A", none, false⟩) (.license ⟨"B", none, false⟩))
      (.license ⟨"C", none, false⟩)) (by decide +kernel)
    simpa using h
  · intro h
    have hnormal := ((parse_render_inverse.2.1 _ 100 1000).1 h).1
    exact hnormal.grouped.2.2 trivial

end LicenseExpr
