/-
The licenses of a text are its words in operand position, and among each
other they are complete: every one of them is an expression that has no
license but itself, and joined they have no licenses but themselves.

# Positions

Where a word stands follows from the nearest word or parenthesis in front of
it (`StandsAs`). For any tokens that is a matter of definition; for tokens in
which parentheses and words stand where the grammar has them (`Alternates`)
it comes to what the scanner expects there, and the scanner expects operands
where a tree that was read has its licenses.

# Licenses read again

A license or an exception that was read can be named by text, wherever it
is put. So a tree of such names, of any shape, has a text that is read as
the tree regrouped, and its licenses come back. Names that are spelled like
operators are no exception, as they stand where operands are expected.
-/
import LicenseExpr.Proofs.Canonical
import LicenseExpr.Proofs.Regrouping
import LicenseExpr.Subject
import Mathlib.Data.List.Induction
import Mathlib.Data.List.Sort

namespace LicenseExpr

-- ============================================================ positions

/-- The word is AND, OR or WITH in some mixture of cases. -/
def IsKeyword (letters : List Char) : Prop :=
  Spells letters "AND" ∨ Spells letters "OR" ∨ Spells letters "WITH"

/-- There is no word among the tokens. -/
def Wordless (tokens : List Token) : Prop :=
  ∀ letters, .word letters ∉ tokens

/-- The word behind the tokens stands where the scanner should expect what
is said. An operand is the first word, or the word before it is an operator,
or it stands directly behind an opening parenthesis. An operator is a
keyword directly behind an operand or a closing parenthesis. -/
inductive StandsAs : Expecting → List Token → List Char → Prop where
  | first {before : List Token} {letters : List Char} :
      Wordless before → StandsAs .operand before letters
  | behindOperator {before gap : List Token} {word letters : List Char} :
      StandsAs .operator before word → Wordless gap →
      StandsAs .operand (before ++ .word word :: gap) letters
  | behindOpening {before : List Token} {letters : List Char} :
      StandsAs .operand (before ++ [.opening]) letters
  | behindOperand {before : List Token} {word letters : List Char} :
      StandsAs .operand before word → IsKeyword letters →
      StandsAs .operator (before ++ [.word word]) letters
  | behindClosing {before : List Token} {letters : List Char} :
      IsKeyword letters → StandsAs .operator (before ++ [.closing]) letters

/-- Operands and operators take turns in the tokens, operators are keywords,
and parentheses open where an operand is expected and close where an
operator is. -/
inductive Alternates : Expecting → List Token → Expecting → Prop where
  | nil (e : Expecting) : Alternates e [] e
  | opening {tokens : List Token} {e : Expecting} :
      Alternates .operand tokens e →
      Alternates .operand (.opening :: tokens) e
  | closing {tokens : List Token} {e : Expecting} :
      Alternates .operator tokens e →
      Alternates .operator (.closing :: tokens) e
  | operand {tokens : List Token} {e : Expecting} (letters : List Char) :
      Alternates .operator tokens e →
      Alternates .operand (.word letters :: tokens) e
  | operator {tokens : List Token} {e : Expecting} {letters : List Char} :
      IsKeyword letters → Alternates .operand tokens e →
      Alternates .operator (.word letters :: tokens) e

namespace Alternates

variable {e e' e'' : Expecting} {before behind tokens : List Token}
  {letters : List Char}

/-- What takes turns can be continued by what goes on from there. -/
theorem append (h : Alternates e before e')
    (h' : Alternates e' behind e'') :
    Alternates e (before ++ behind) e'' := by
  induction h with
  | nil e => exact h'
  | opening _ ih => exact .opening (ih h')
  | closing _ ih => exact .closing (ih h')
  | operand letters _ ih => exact .operand letters (ih h')
  | operator hword _ ih => exact .operator hword (ih h')

/-- What takes turns can be split anywhere. -/
theorem split (h : Alternates e (before ++ behind) e'') :
    ∃ e', Alternates e before e' ∧ Alternates e' behind e'' := by
  induction before generalizing e with
  | nil => exact ⟨e, .nil e, h⟩
  | cons token before ih =>
      cases h with
      | opening h =>
          obtain ⟨e', hbefore, hbehind⟩ := ih h
          exact ⟨e', .opening hbefore, hbehind⟩
      | closing h =>
          obtain ⟨e', hbefore, hbehind⟩ := ih h
          exact ⟨e', .closing hbefore, hbehind⟩
      | operand letters h =>
          obtain ⟨e', hbefore, hbehind⟩ := ih h
          exact ⟨e', .operand letters hbefore, hbehind⟩
      | operator hword h =>
          obtain ⟨e', hbefore, hbehind⟩ := ih h
          exact ⟨e', .operator hword hbefore, hbehind⟩

/-- In front of an operand a parenthesis may open. -/
theorem opening_iff :
    Alternates .operand (.opening :: tokens) e
      ↔ Alternates .operand tokens e :=
  ⟨fun h => by cases h; assumption, .opening⟩

/-- Behind an operand a parenthesis may close. -/
theorem closing_iff :
    Alternates .operator (.closing :: tokens) e
      ↔ Alternates .operator tokens e :=
  ⟨fun h => by cases h; assumption, .closing⟩

/-- Any word may be an operand. -/
theorem operand_iff :
    Alternates .operand (.word letters :: tokens) e
      ↔ Alternates .operator tokens e :=
  ⟨fun h => by cases h; assumption, .operand letters⟩

/-- Only a keyword may be an operator. -/
theorem operator_iff :
    Alternates .operator (.word letters :: tokens) e
      ↔ IsKeyword letters ∧ Alternates .operand tokens e :=
  ⟨fun h => by cases h; constructor <;> assumption,
    fun h => .operator h.1 h.2⟩

/-- Parentheses alone change nothing about what is expected. -/
theorem eq_of_wordless (h : Alternates e tokens e')
    (hwordless : Wordless tokens) : e' = e := by
  induction h with
  | nil e => rfl
  | opening _ ih =>
      exact ih fun letters hmem =>
        hwordless letters (List.mem_cons_of_mem _ hmem)
  | closing _ ih =>
      exact ih fun letters hmem =>
        hwordless letters (List.mem_cons_of_mem _ hmem)
  | operand letters => exact absurd List.mem_cons_self (hwordless letters)
  | operator => exact absurd List.mem_cons_self (hwordless _)

end Alternates

/-- Where a word stands as something, that is what is expected there. -/
theorem StandsAs.eq {e e' : Expecting} {before : List Token}
    {letters : List Char} (h : StandsAs e before letters)
    (hbefore : Alternates .operand before e') : e' = e := by
  induction h generalizing e' with
  | first hwordless => exact hbefore.eq_of_wordless hwordless
  | behindOperator _ hgap ih =>
      obtain ⟨e, hfront, hback⟩ := hbefore.split
      cases ih hfront
      cases hback with
      | operator _ hback => exact hback.eq_of_wordless hgap
  | behindOpening =>
      obtain ⟨e, -, hback⟩ := hbefore.split
      cases hback with
      | opening hback => cases hback; rfl
  | behindOperand _ _ ih =>
      obtain ⟨e, hfront, hback⟩ := hbefore.split
      cases ih hfront
      cases hback with
      | operand _ hback => cases hback; rfl
  | behindClosing =>
      obtain ⟨e, -, hback⟩ := hbefore.split
      cases hback with
      | closing hback => cases hback; rfl

/-- A word stands as what is expected in front of it, if it is a keyword
where an operator is expected. -/
theorem Alternates.standsAs {e : Expecting} {before : List Token}
    {letters : List Char} (h : Alternates .operand before e)
    (hword : e = .operator → IsKeyword letters) :
    StandsAs e before letters := by
  -- from behind, since the nearest token decides; two words back it is the
  -- same question again
  induction before using List.reverseRecOn generalizing e letters with
  | nil =>
      cases h
      exact .first fun _ => List.not_mem_nil
  | append_singleton before token ih =>
      obtain ⟨e', hfront, hback⟩ := h.split
      cases hback with
      | opening hback => cases hback; exact .behindOpening
      | closing hback => cases hback; exact .behindClosing (hword rfl)
      | operand word hback =>
          cases hback
          exact .behindOperand (ih hfront nofun) (hword rfl)
      | operator hkeyword hback =>
          cases hback
          exact .behindOperator (ih hfront fun _ => hkeyword)
            fun _ => List.not_mem_nil

/-- A word in a text is its first token or stands behind it. -/
theorem exists_split_cons {P : List Token → Prop} {token : Token}
    {tokens : List Token} {letters : List Char} :
    (∃ before behind, token :: tokens = before ++ .word letters :: behind
        ∧ P before)
      ↔ (token = .word letters ∧ P [])
        ∨ ∃ before behind, tokens = before ++ .word letters :: behind
          ∧ P (token :: before) := by
  constructor
  · intro h
    obtain ⟨before, behind, heq, hbefore⟩ := h
    cases before with
    | nil => exact Or.inl ⟨(List.cons.inj heq).1, hbefore⟩
    | cons token' before =>
        obtain ⟨rfl, rfl⟩ := List.cons.inj heq
        exact Or.inr ⟨before, behind, rfl, hbefore⟩
  · intro h
    rcases h with ⟨rfl, hnil⟩ | ⟨before, behind, rfl, hbefore⟩
    · exact ⟨[], tokens, rfl, hnil⟩
    · exact ⟨token :: before, behind, rfl, hbefore⟩

/-- The words that the scanner meets where it expects an operand are those
in front of which an operand is expected. -/
theorem Alternates.mem_operandWords {e e' : Expecting}
    {tokens : List Token} {letters : List Char}
    (h : Alternates e tokens e') :
    letters ∈ operandWords e tokens ↔
      ∃ before behind, tokens = before ++ .word letters :: behind
        ∧ Alternates e before .operand := by
  induction h with
  | nil e => simp [operandWords]
  | opening _ ih =>
      rw [operandWords, ih, exists_split_cons]
      simp [opening_iff]
  | closing _ ih =>
      rw [operandWords, ih, exists_split_cons]
      simp [closing_iff]
  | operand word _ ih =>
      rw [operandWords, List.mem_cons, ih, exists_split_cons]
      simp [operand_iff, Alternates.nil, eq_comm]
  | operator hword _ ih =>
      have hnil : ¬ Alternates .operator [] .operand := by
        intro h
        cases h
      rw [operandWords, ih, exists_split_cons]
      simp [operator_iff, hword, hnil]

/-- The operands among the tokens are the words that stand as such. -/
theorem Alternates.mem_operandWords_iff {e : Expecting}
    {tokens : List Token} {letters : List Char}
    (h : Alternates .operand tokens e) :
    letters ∈ operandWords .operand tokens ↔
      ∃ before behind, tokens = before ++ .word letters :: behind
        ∧ StandsAs .operand before letters := by
  rw [h.mem_operandWords]
  constructor
  · intro hsplit
    obtain ⟨before, behind, rfl, hbefore⟩ := hsplit
    exact ⟨before, behind, rfl, hbefore.standsAs nofun⟩
  · intro hsplit
    obtain ⟨before, behind, rfl, hstands⟩ := hsplit
    obtain ⟨e', hbefore, -⟩ := h.split
    rw [hstands.eq hbefore] at hbefore
    exact ⟨before, behind, rfl, hbefore⟩

/-- Operands and operators take turns in the tokens of a derivation. -/
theorem Derivation.alternates {p : Phrase} (d : Derivation p) :
    Alternates .operand d.tokens .operator := by
  induction d with
  | license l => exact .operand _ (.nil _)
  | withException l wellFormed word name =>
      exact .operand _ (.operator (Or.inr (Or.inr word.spells))
        (.operand _ (.nil _)))
  | parens opening inner closing ih =>
      exact .opening (ih.append (.closing (.nil _)))
  | factor only ih => exact ih
  | and left word right ihl ihr =>
      exact ihl.append (.operator (Or.inl word.spells) ihr)
  | term only ih => exact ih
  | or left word right ihl ihr =>
      exact ihl.append (.operator (Or.inr (Or.inl word.spells)) ihr)

-- ======================================================== sets of texts

namespace Text

/-- An ascending list is the set of its members. -/
theorem ascending_of_pairwise {texts : List String}
    (h : texts.Pairwise (· < ·)) : ascending texts = texts :=
  (pairwise_ascending texts).eq_of_mem_iff h fun _ => mem_ascending

end Text

-- =================================================== licenses of texts

/-- The licenses of a text, which is read at the default depth. -/
def licensesOf (stack : Stack) (text : String) :
    Except Fault (List String) :=
  ((Draft.foreign (.text text)).findLicenses stack).value

namespace Expr

variable {text : String} {stack : Stack} {t : Expr}

/-- A text has licenses if it is read, and these are the ones of the
tree. -/
theorem licensesOf_eq_ok_iff {found : List String} :
    licensesOf stack text = .ok found ↔
      ∃ t, (parse text defaultMaxDepth stack).value = .ok t
        ∧ t.licenses = found := by
  show ((parse text defaultMaxDepth stack).value.map
    Draft.licenses).mapError Fault.ofReading = .ok found ↔ _
  cases (parse text defaultMaxDepth stack).value with
  | ok t => simp [Except.map, Except.mapError]
  | error error => simp [Except.map, Except.mapError]

/-- The licenses of a text that is read are its words in operand
position. -/
theorem mem_licenses_iff
    (h : (parse text defaultMaxDepth stack).value = .ok t) (word : String) :
    word ∈ t.licenses ↔
      ∃ before behind,
        tokensOf text.toList = before ++ .word word.toList :: behind
        ∧ StandsAs .operand before word.toList := by
  obtain ⟨s, htext, -, -⟩ := parse_eq_ok_iff.1 h
  have halternates := s.body.alternates
  rw [← s.tokensOf_text, htext] at halternates
  show _ ↔ ∃ before behind, tokensOf (Script.chars text) = _ ∧ _
  rw [← halternates.mem_operandWords_iff, ← tokens_eq_operandWords h,
    Draft.licenses, Text.mem_ascending,
    List.mem_map_of_injective fun _ _ => String.toList_inj.1]

/-- What a tree lists is the text of a license that text can name. -/
theorem WellNamed.listed {t : Expr} (h : t.WellNamed) :
    ∀ word ∈ t.listed, ∃ l : License, l.WellFormed ∧ l.text = word := by
  induction t with
  | license l =>
      intro word hword
      obtain rfl := List.mem_singleton.1 hword
      exact ⟨l, h, rfl⟩
  | withException l name =>
      intro word hword
      rcases List.mem_cons.1 hword with rfl | hword
      · exact ⟨l, h.1, rfl⟩
      · obtain rfl := List.mem_singleton.1 hword
        exact ⟨⟨word, none, false⟩, h.2.wellFormed, text_bare word⟩
  | and left right ihl ihr =>
      exact List.forall_mem_append.2 ⟨ihl h.1, ihr h.2⟩
  | or left right ihl ihr =>
      exact List.forall_mem_append.2 ⟨ihl h.1, ihr h.2⟩
  | parens inner ih => exact ih h
  | foreign value => exact value.elim

/-- No tree is without a name. -/
theorem listed_ne_nil (t : Expr) : t.listed ≠ [] := by
  induction t with
  | license l => exact List.cons_ne_nil _ _
  | withException l name => exact List.cons_ne_nil _ _
  | and left right ihl _ => exact List.append_ne_nil_of_left_ne_nil ihl _
  | or left right ihl _ => exact List.append_ne_nil_of_left_ne_nil ihl _
  | parens inner ih => exact ih
  | foreign value => exact value.elim

/-- The licenses are what the tree lists. -/
theorem mem_licenses {word : String} :
    word ∈ t.licenses ↔ word ∈ t.listed := by
  rw [Draft.licenses, Text.mem_ascending, Draft.tokens_eq_listed]

/-- The licenses of a tree come back from its text. -/
theorem licensesOf_render (hbears : stack.bears 0 = true)
    (hnamed : t.WellNamed) (hnesting : t.nesting = 0) :
    licensesOf stack t.render = .ok t.licenses := by
  have hreaches : stack.Reaches defaultMaxDepth t.nesting := by
    rw [hnesting]
    exact ⟨Nat.zero_le _, hbears⟩
  exact licensesOf_eq_ok_iff.2 ⟨t.normalize,
    parse_render_eq_normalize hnamed hreaches, licenses_normalize t⟩

/-- Licenses joined by an operator, grouped to the right. -/
def chain (joint : Joint) (l : License) : List License → Expr
  | [] => .license l
  | l' :: more => joint.join (.license l) (chain joint l' more)

section Chain

variable (joint : Joint) (l : License) (more : List License)

/-- The text of a chain. -/
theorem render_chain :
    (chain joint l more).render
      = String.intercalate joint.text ((l :: more).map License.text) := by
  induction more generalizing l with
  | nil => simp [chain]
  | cons l' more ih =>
      rw [chain, renderFree.join, ih]
      simp [renderFree]

/-- A chain lists its licenses. -/
theorem listed_chain :
    (chain joint l more).listed = (l :: more).map License.text := by
  induction more generalizing l with
  | nil => rfl
  | cons l' more ih =>
      rw [chain, listedFree.join, ih]
      rfl

/-- A chain has no parentheses. -/
theorem nesting_chain : (chain joint l more).nesting = 0 := by
  induction more generalizing l with
  | nil => rfl
  | cons l' more ih =>
      rw [chain, nestingFree.join, ih]
      rfl

/-- A chain names what its licenses name. -/
theorem wellNamed_chain (h : ∀ l' ∈ l :: more, l'.WellFormed) :
    (chain joint l more).WellNamed := by
  induction more generalizing l with
  | nil => exact h l List.mem_cons_self
  | cons l' more ih =>
      rw [chain, wellNamedFree.join]
      obtain ⟨hl, hmore⟩ := List.forall_mem_cons.1 h
      exact ⟨hl, ih l' hmore⟩

end Chain

/-- Texts of licenses that text can name, joined by an operator, have just
these licenses. -/
theorem licensesOf_intercalate (hbears : stack.bears 0 = true)
    (joint : Joint) {words : List String}
    (hne : words ≠ []) (hascending : words.Pairwise (· < ·))
    (hwords : ∀ word ∈ words, ∃ l : License, l.WellFormed ∧ l.text = word) :
    licensesOf stack (joint.text.intercalate words) = .ok words := by
  obtain ⟨licenses, rfl, hwell⟩ : ∃ licenses : List License,
      licenses.map License.text = words ∧ ∀ l ∈ licenses, l.WellFormed := by
    -- a license for each of the texts
    choose name hwell htext using hwords
    refine ⟨words.pmap name fun _ hword => hword, ?_, ?_⟩
    · simp [List.map_pmap, htext]
    · intro l hl
      obtain ⟨word, hword, rfl⟩ := List.mem_pmap.1 hl
      exact hwell word hword
  obtain ⟨l, more, rfl⟩ :=
    List.exists_cons_of_ne_nil (List.map_eq_nil_iff.not.1 hne)
  rw [← render_chain, licensesOf_render hbears
    (wellNamed_chain joint l more hwell) (nesting_chain joint l more),
    Draft.licenses, Draft.tokens_eq_listed, listed_chain,
    Text.ascending_of_pairwise hascending]

end Expr

/-- The licenses of a text that is read at the default depth are the words
that stand as operands in it, in ascending order and each one once. Each of
them is a text that is read and has no license but itself, and they can be
joined by either operator to a text that is read and has the same licenses.
All this holds of words that are spelled like operators too. -/
theorem licenses_closed (text : String) (stack : Stack) (t : Expr)
    (h : (Expr.parse text defaultMaxDepth stack).value = .ok t) :
    ∃ found, licensesOf stack text = .ok found
      ∧ found.Pairwise (· < ·)
      ∧ (∀ word, word ∈ found ↔ ∃ before behind,
          tokensOf text.toList = before ++ .word word.toList :: behind
          ∧ StandsAs .operand before word.toList)
      ∧ (∀ word ∈ found, licensesOf stack word = .ok [word])
      ∧ licensesOf stack (" OR ".intercalate found) = .ok found
      ∧ licensesOf stack (" AND ".intercalate found) = .ok found := by
  have hascending : t.licenses.Pairwise (· < ·) :=
    Text.pairwise_ascending t.tokens
  obtain ⟨⟨hnamed, -⟩, hreaches⟩ := Expr.normal_of_parse h
  have hbears := Stack.bears_zero_of_bears hreaches.bears
  have hwords : ∀ word ∈ t.licenses,
      ∃ l : License, l.WellFormed ∧ l.text = word := fun word hword =>
    hnamed.listed word (Expr.mem_licenses.1 hword)
  have hne : t.licenses ≠ [] := by
    obtain ⟨word, hword⟩ := List.exists_mem_of_ne_nil _ t.listed_ne_nil
    exact List.ne_nil_of_mem (Expr.mem_licenses.2 hword)
  refine ⟨t.licenses, Expr.licensesOf_eq_ok_iff.2 ⟨t, h, rfl⟩, hascending,
    Expr.mem_licenses_iff h, ?_, ?_, ?_⟩
  · intro word hword
    have hone : licensesOf stack (Joint.or.text.intercalate [word])
        = .ok [word] :=
      Expr.licensesOf_intercalate hbears .or (List.cons_ne_nil word [])
        (List.pairwise_singleton _ word)
        (List.forall_mem_singleton.2 (hwords word hword))
    rwa [String.intercalate_singleton] at hone
  · exact Expr.licensesOf_intercalate hbears .or hne hascending hwords
  · exact Expr.licensesOf_intercalate hbears .and hne hascending hwords

/-- Licenses called `or` and `With`, and an exception called `and`. -/
theorem licenses_closed_of_or :
    licensesOf {} "or OR (With with and)" = .ok ["With", "and", "or"]
    ∧ licensesOf {} "and" = .ok ["and"]
    ∧ licensesOf {} "With OR and OR or" = .ok ["With", "and", "or"]
    ∧ licensesOf {} "With AND and AND or" = .ok ["With", "and", "or"] := by
  have hparse : (Expr.parse "or OR (With with and)" defaultMaxDepth {}).value
      = .ok (.or (.license ⟨"or", none, false⟩)
        (.parens (.withException ⟨"With", none, false⟩ "and"))) := by
    decide +kernel
  obtain ⟨found, hfound, -, -, hsingle, hor, hand⟩ :=
    licenses_closed "or OR (With with and)" {} _ hparse
  have hwords : licensesOf {} "or OR (With with and)"
      = .ok ["With", "and", "or"] :=
    Expr.licensesOf_eq_ok_iff.2 ⟨_, hparse, by decide +kernel⟩
  rw [hwords] at hfound
  cases hfound
  exact ⟨hwords, hsingle "and" (by decide), hor, hand⟩

end LicenseExpr
