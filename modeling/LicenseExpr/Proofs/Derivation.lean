/-
The grammar of license expressions, as the derivations it has.

    expression = term | expression OR term
    term       = factor | term AND factor
    factor     = license | license WITH exception | ( expression )

A derivation is a value: it says which rule makes each part of a text, how
every operator in it is spelled and which blanks stand inside its
parentheses. So it has a text and a tree, and both are read off it. The
lists of the grammar are left recursive here, because AND and OR group to
the left: the derivation of a list has the shape of its tree.

# What a derivation is determined by

The tree of a derivation forgets blanks and cases, and its text forgets the
rules. Both together determine it, even where more text follows
(`Derivation.eq_of_tree_eq`). That a text has only one tree is not shown
here; it is what reading makes of the text (`Descent`).
-/
import LicenseExpr.Proofs.Spelling
import LicenseExpr.Draft

namespace LicenseExpr

open Text

-- ========================================================== derivations

/-- The kinds of phrases, from the one that binds tightest on. -/
inductive Phrase where
  | factor
  | term
  | expression
deriving DecidableEq

/-- Blanks, possibly none. -/
@[ext] structure Blanks where
  chars : List Char
  areBlank : ∀ c ∈ chars, isBlank c = true

/-- How the grammar makes a phrase. -/
inductive Derivation : Phrase → Type where
  /-- A single license. -/
  | license (l : License) (wellFormed : l.WellFormed) : Derivation .factor
  /-- A license with an exception to it. -/
  | withException (l : License) (wellFormed : l.WellFormed)
      (word : Spelling "WITH") (name : String)
      (isName : IsExceptionName name) : Derivation .factor
  /-- An expression in parentheses. -/
  | parens (opening : Blanks) (inner : Derivation .expression)
      (closing : Blanks) : Derivation .factor
  /-- A factor alone is a term. -/
  | factor (only : Derivation .factor) : Derivation .term
  /-- A term goes on with AND. -/
  | and (left : Derivation .term) (word : Spelling "AND")
      (right : Derivation .factor) : Derivation .term
  /-- A term alone is an expression. -/
  | term (only : Derivation .term) : Derivation .expression
  /-- An expression goes on with OR. -/
  | or (left : Derivation .expression) (word : Spelling "OR")
      (right : Derivation .term) : Derivation .expression

namespace Derivation

/-- The text that a derivation makes. -/
def text {p : Phrase} : Derivation p → List Char
  | license l _ => l.text.toList
  | withException l _ word name _ => l.text.toList ++ word.text ++ name.toList
  | parens opening inner closing =>
      '(' :: (opening.chars ++ inner.text ++ closing.chars ++ [')'])
  | factor only => only.text
  | and left word right => left.text ++ word.text ++ right.text
  | term only => only.text
  | or left word right => left.text ++ word.text ++ right.text

/-- The tree that a derivation gives its text. -/
def tree {p : Phrase} : Derivation p → Expr
  | license l _ => .license l
  | withException l _ _ name _ => .withException l name
  | parens _ inner _ => .parens inner.tree
  | factor only => only.tree
  | and left _ right => .and left.tree right.tree
  | term only => only.tree
  | or left _ right => .or left.tree right.tree

variable {p : Phrase}

-- ======================================== where a text begins and ends

/-- The text of a derivation begins with an identifier character or with a
parenthesis. -/
theorem ahead (d : Derivation p) :
    ∃ c tail, d.text = c :: tail ∧ (isIdChar c = true ∨ c = '(') := by
  induction d with
  | license l wellFormed =>
      obtain ⟨c, tail, hct, hc⟩ := wellFormed.ahead
      exact ⟨c, tail, hct, Or.inl hc⟩
  | withException l wellFormed word name =>
      obtain ⟨c, tail, hct, hc⟩ := wellFormed.ahead
      refine ⟨c, tail ++ word.text ++ name.toList, ?_, Or.inl hc⟩
      rw [text, hct]
      rfl
  | parens opening inner closing => exact ⟨'(', _, rfl, Or.inr rfl⟩
  | factor only ih => exact ih
  | and left word right ih =>
      obtain ⟨c, tail, hct, hc⟩ := ih
      refine ⟨c, tail ++ word.text ++ right.text, ?_, hc⟩
      rw [text, hct]
      rfl
  | term only ih => exact ih
  | or left word right ih =>
      obtain ⟨c, tail, hct, hc⟩ := ih
      refine ⟨c, tail ++ word.text ++ right.text, ?_, hc⟩
      rw [text, hct]
      rfl

/-- The text of a derivation is not empty. -/
theorem text_ne_nil (d : Derivation p) : d.text ≠ [] := by
  obtain ⟨c, tail, hct, -⟩ := d.ahead
  rw [hct]
  exact List.cons_ne_nil c tail

/-- The text of a derivation does not begin with a blank. -/
theorem notAhead_text (d : Derivation p) (rest : List Char) :
    NotAhead isBlank (d.text ++ rest) := by
  obtain ⟨c, tail, hct, hc⟩ := d.ahead
  rw [hct, List.cons_append, notAhead_cons]
  rcases hc with hc | rfl
  · exact isBlank_of_isIdChar hc
  · decide

/-- A derivation stands behind blanks in one way only. -/
theorem skipBlanks_text (d : Derivation p) (gap : Blanks)
    (rest : List Char) :
    skipBlanks (gap.chars ++ (d.text ++ rest)) = d.text ++ rest :=
  skipBlanks_run gap.areBlank (d.notAhead_text rest)

/-- The text of a derivation does not end with a blank. -/
theorem last (d : Derivation p) :
    ∃ front c, d.text = front ++ [c] ∧ isBlank c = false := by
  induction d with
  | license l wellFormed =>
      obtain ⟨c, tail, hct, -⟩ := wellFormed.ahead
      exact exists_last (by rw [text, hct]; exact List.cons_ne_nil c tail)
        wellFormed.chars
  | withException l wellFormed word name isName =>
      obtain ⟨front, c, hname, hc⟩ := exists_last isName.1.1 isName.1.chars
      exact ⟨l.text.toList ++ word.text ++ front, c,
        by rw [text, hname, List.append_assoc _ front], hc⟩
  | parens opening inner closing =>
      exact ⟨'(' :: (opening.chars ++ inner.text ++ closing.chars), ')',
        rfl, rfl⟩
  | factor only ih => exact ih
  | and left word right ihl ihr =>
      obtain ⟨front, c, hright, hc⟩ := ihr
      exact ⟨left.text ++ word.text ++ front, c,
        by rw [text, hright, List.append_assoc _ front], hc⟩
  | term only ih => exact ih
  | or left word right ihl ihr =>
      obtain ⟨front, c, hright, hc⟩ := ihr
      exact ⟨left.text ++ word.text ++ front, c,
        by rw [text, hright, List.append_assoc _ front], hc⟩

-- ============================================ what a derivation is of

/-- A factor is no list of factors. -/
theorem tree_factor_ne_and (d : Derivation .factor) (left right : Expr) :
    d.tree ≠ .and left right := by
  intro h
  cases d <;> cases h

/-- A factor is no list of terms. -/
theorem tree_factor_ne_or (d : Derivation .factor) (left right : Expr) :
    d.tree ≠ .or left right := by
  intro h
  cases d <;> cases h

/-- A term is no list of terms. -/
theorem tree_term_ne_or (d : Derivation .term) (left right : Expr) :
    d.tree ≠ .or left right := by
  intro h
  cases d with
  | factor only => exact tree_factor_ne_or only left right h
  | and => cases h

/-- A list that is cut off behind its last operand: if the operands are
determined, the list is. -/
theorem eq_of_list {q r : Phrase} {w : String} (hw : IsOperatorWord w)
    {left left' : Derivation q} {right right' : Derivation r}
    {word word' : Spelling w} {rest rest' : List Char}
    (hleft : ∀ {rest rest' : List Char},
      left.text ++ rest = left'.text ++ rest' → left = left' ∧ rest = rest')
    (hright : ∀ {rest rest' : List Char},
      right.text ++ rest = right'.text ++ rest'
        → right = right' ∧ rest = rest')
    (htext : left.text ++ word.text ++ right.text ++ rest
      = left'.text ++ word'.text ++ right'.text ++ rest') :
    left = left' ∧ word = word' ∧ right = right' ∧ rest = rest' := by
  simp only [List.append_assoc] at htext
  -- from left to right, each part is determined by what the text begins with
  obtain ⟨rfl, hbehind⟩ := hleft htext
  obtain ⟨rfl, hoperand⟩ := Spelling.eq_of_append hw word word'
    (right.notAhead_text rest) (right'.notAhead_text rest') hbehind
  obtain ⟨rfl, hrest⟩ := hright hoperand
  exact ⟨rfl, rfl, rfl, hrest⟩

/-- The tree of a derivation and the text it begins determine it, and with
it the rest of the text. -/
theorem eq_of_tree_eq (d d' : Derivation p) {rest rest' : List Char}
    (htree : d.tree = d'.tree)
    (htext : d.text ++ rest = d'.text ++ rest') :
    d = d' ∧ rest = rest' := by
  induction d generalizing rest rest' with
  | license l _ =>
      cases d' with
      | license l' _ =>
          cases htree
          exact ⟨rfl, List.append_cancel_left htext⟩
      | withException => cases htree
      | parens => cases htree
  | withException l _ word name isName =>
      cases d' with
      | license => cases htree
      | withException l' _ word' name' isName' =>
          cases htree
          simp only [text, List.append_assoc] at htext
          obtain ⟨rfl, hrest⟩ := Spelling.eq_of_append isOperatorWord_with
            word word' (isName.1.notAhead rest) (isName.1.notAhead rest')
            (List.append_cancel_left htext)
          exact ⟨rfl, List.append_cancel_left hrest⟩
      | parens => cases htree
  | parens opening inner closing ih =>
      cases d' with
      | license => cases htree
      | withException => cases htree
      | parens opening' inner' closing' =>
          simp only [tree, Draft.parens.injEq] at htree
          simp only [text, List.append_assoc, List.cons_append,
            List.nil_append, List.cons.injEq, true_and] at htext
          -- no derivation begins with a blank, so the opening blanks end at
          -- the same place; then the same of the closing ones
          obtain ⟨hopening, hinner⟩ := run_unique htext opening.areBlank
            opening'.areBlank (inner.notAhead_text _) (inner'.notAhead_text _)
          obtain ⟨rfl, hbehind⟩ := ih inner' htree hinner
          obtain ⟨hclosing, hrest⟩ := run_unique hbehind closing.areBlank
            closing'.areBlank (notAhead_cons.2 rfl)
            (notAhead_cons.2 rfl)
          obtain rfl := Blanks.ext hopening
          obtain rfl := Blanks.ext hclosing
          exact ⟨rfl, (List.cons.inj hrest).2⟩
  | factor only ih =>
      cases d' with
      | factor only' =>
          obtain ⟨rfl, hrest⟩ := ih only' htree htext
          exact ⟨rfl, hrest⟩
      | and left' word' right' =>
          exact absurd htree (tree_factor_ne_and _ _ _)
  | and left word right ihl ihr =>
      cases d' with
      | factor only' =>
          exact absurd htree.symm (tree_factor_ne_and _ _ _)
      | and left' word' right' =>
          simp only [tree, Draft.and.injEq] at htree
          obtain ⟨rfl, rfl, rfl, hrest⟩ := eq_of_list isOperatorWord_and
            (ihl left' htree.1) (ihr right' htree.2) htext
          exact ⟨rfl, hrest⟩
  | term only ih =>
      cases d' with
      | term only' =>
          obtain ⟨rfl, hrest⟩ := ih only' htree htext
          exact ⟨rfl, hrest⟩
      | or left' word' right' =>
          exact absurd htree (tree_term_ne_or _ _ _)
  | or left word right ihl ihr =>
      cases d' with
      | term only' => exact absurd htree.symm (tree_term_ne_or _ _ _)
      | or left' word' right' =>
          simp only [tree, Draft.or.injEq] at htree
          obtain ⟨rfl, rfl, rfl, hrest⟩ := eq_of_list isOperatorWord_or
            (ihl left' htree.1) (ihr right' htree.2) htext
          exact ⟨rfl, hrest⟩

end Derivation

-- ========================================================== whole texts

/-- A whole text as the grammar makes it: an expression between blanks. -/
@[ext] structure Sentence where
  leading : Blanks
  body : Derivation .expression
  trailing : Blanks

namespace Sentence

/-- The text that a sentence makes. -/
def text (s : Sentence) : List Char :=
  s.leading.chars ++ s.body.text ++ s.trailing.chars

/-- The tree that a sentence gives its text. -/
def tree (s : Sentence) : Expr := s.body.tree

/-- Behind its leading blanks a sentence begins with its expression. -/
theorem skipBlanks_text (s : Sentence) :
    skipBlanks s.text = s.body.text ++ s.trailing.chars := by
  rw [text, List.append_assoc]
  exact s.body.skipBlanks_text s.leading s.trailing.chars

/-- The tree of a sentence and its text determine it. -/
theorem eq_of_tree_eq {s s' : Sentence} (htree : s.tree = s'.tree)
    (htext : s.text = s'.text) : s = s' := by
  simp only [text, List.append_assoc] at htext
  obtain ⟨hleading, hbody⟩ := run_unique htext s.leading.areBlank
    s'.leading.areBlank (s.body.notAhead_text _) (s'.body.notAhead_text _)
  obtain ⟨hbody, htrailing⟩ := s.body.eq_of_tree_eq s'.body htree hbody
  exact Sentence.ext (Blanks.ext hleading) hbody (Blanks.ext htrailing)

end Sentence

end LicenseExpr
