/-
Writing what was read is scanning.

The text of a tree that was read could also be made from the text it was
read from, by the scanner, which knows two states and no grammar. The proof
goes through the tokens of a derivation. They are the tokens of its text
(`tokensOf_text`), which is a matter of where words end; and from them the
scanner makes the text of its tree (`scan_tokens`), which is a matter of
where operands stand. In front of a phrase the scanner expects an operand
and behind it an operator: this is what the induction carries.
-/
import LicenseExpr.Proofs.Listing
import LicenseExpr.Proofs.Normal
import LicenseExpr.Proofs.Scan

namespace LicenseExpr

open Text

-- ============================================ the tokens of a derivation

namespace Derivation

variable {p : Phrase} {rest : List Char}

/-- The tokens that a derivation makes. -/
def tokens {p : Phrase} : Derivation p → List Token
  | license l _ => [.word l.text.toList]
  | withException l _ word name _ =>
      [.word l.text.toList, .word word.letters, .word name.toList]
  | parens _ inner _ => .opening :: inner.tokens ++ [.closing]
  | factor only => only.tokens
  | and left word right => left.tokens ++ .word word.letters :: right.tokens
  | term only => only.tokens
  | or left word right => left.tokens ++ .word word.letters :: right.tokens

/-- A license that the text does not go on with is one word. -/
theorem tokensOf_license {l : License} (h : l.WellFormed)
    (hrest : NotAhead isWordChar rest) :
    tokensOf (l.text.toList ++ rest)
      = .word l.text.toList :: tokensOf rest := by
  obtain ⟨c, tail, hct, -⟩ := h.ahead
  refine tokensOf_word (by rw [hct]; exact List.cons_ne_nil c tail) ?_ hrest
  intro c hc
  exact isWordChar_of_isLicenseChar (h.chars c hc)

/-- An id string that the text does not go on with is one word. -/
theorem tokensOf_idString {id : String} (h : IsIdString id)
    (hrest : NotAhead isWordChar rest) :
    tokensOf (id.toList ++ rest) = .word id.toList :: tokensOf rest := by
  refine tokensOf_word h.1 ?_ hrest
  intro c hc
  exact isWordChar_of_isLicenseChar (h.chars c hc)

/-- The tokens that a derivation makes are the tokens of its text. -/
theorem tokensOf_text (d : Derivation p)
    (hrest : NotAhead isWordChar rest) :
    tokensOf (d.text ++ rest) = d.tokens ++ tokensOf rest := by
  induction d generalizing rest with
  | license l wellFormed => exact tokensOf_license wellFormed hrest
  | withException l wellFormed word name isName =>
      rw [text, List.append_assoc, List.append_assoc,
        tokensOf_license wellFormed (word.notAhead_word _),
        tokensOf_spelling isOperatorWord_with,
        tokensOf_idString isName.1 hrest]
      rfl
  | parens opening inner closing ih =>
      have hclosing := closed_of_closing rest closing.areBlank
      rw [text, List.cons_append, tokensOf_opening, List.append_assoc,
        List.append_assoc, List.append_assoc,
        tokensOf_blanks opening.areBlank]
      show _ :: tokensOf (inner.text ++ (closing.chars ++ ')' :: rest)) = _
      rw [ih hclosing.notAhead_word, tokensOf_blanks closing.areBlank,
        tokensOf_closing, tokens]
      simp only [List.cons_append, List.append_assoc, List.nil_append]
  | factor only ih => exact ih hrest
  | and left word right ihl ihr =>
      rw [text, List.append_assoc, List.append_assoc,
        ihl (word.notAhead_word _), tokensOf_spelling isOperatorWord_and,
        ihr hrest, tokens]
      simp only [List.cons_append, List.append_assoc]
  | term only ih => exact ih hrest
  | or left word right ihl ihr =>
      rw [text, List.append_assoc, List.append_assoc,
        ihl (word.notAhead_word _), tokensOf_spelling isOperatorWord_or,
        ihr hrest, tokens]
      simp only [List.cons_append, List.append_assoc]

/-- From the tokens of a derivation the scanner makes the text of its
tree. -/
theorem scan_tokens (d : Derivation p) (behind : List Token) :
    scan .operand (d.tokens ++ behind)
      = d.tree.render.toList ++ scan .operator behind := by
  induction d generalizing behind with
  | license l => simp [tokens, scan, tree]
  | withException l wellFormed word name =>
      simp [tokens, scan, tree, word.spells.2]
  | parens opening inner closing ih => simp [tokens, scan, tree, ih]
  | factor only ih => exact ih behind
  | and left word right ihl ihr =>
      simp [tokens, scan, tree, ihl, ihr, word.spells.2]
  | term only ih => exact ih behind
  | or left word right ihl ihr =>
      simp [tokens, scan, tree, ihl, ihr, word.spells.2]

/-- Where the scanner expects operands in the tokens of a derivation, the
licenses and exceptions of its tree stand. -/
theorem operandWords_tokens (d : Derivation p) (behind : List Token) :
    operandWords .operand (d.tokens ++ behind)
      = d.tree.listed.map String.toList
        ++ operandWords .operator behind := by
  induction d generalizing behind with
  | license l => rfl
  | withException l wellFormed word name => rfl
  | parens opening inner closing ih =>
      simp [tokens, operandWords, tree, Draft.listed, ih]
  | factor only ih => exact ih behind
  | and left word right ihl ihr =>
      simp [tokens, operandWords, tree, Draft.listed, ihl, ihr]
  | term only ih => exact ih behind
  | or left word right ihl ihr =>
      simp [tokens, operandWords, tree, Draft.listed, ihl, ihr]

end Derivation

/-- The tokens of a sentence are those of its expression. -/
theorem Sentence.tokensOf_text (s : Sentence) :
    tokensOf s.text = s.body.tokens := by
  have htrailing := closed_of_blank s.trailing.areBlank
  have hend : tokensOf (s.trailing.chars ++ []) = tokensOf [] :=
    tokensOf_blanks s.trailing.areBlank
  rw [List.append_nil, tokensOf_nil] at hend
  rw [Sentence.text, List.append_assoc, tokensOf_blanks s.leading.areBlank,
    s.body.tokensOf_text htrailing.notAhead_word, hend, List.append_nil]

-- ======================================================= what is read

namespace Expr

variable {τ : Type} [Script τ] {text : τ} {maxDepth : Int} {stack : Stack}
  {t : Expr}

/-- A tree that was read is written as the scanner writes the text. -/
theorem render_eq_scan (h : (parse text maxDepth stack).value = .ok t) :
    t.render.toList = scan .operand (tokensOf (Script.chars text)) := by
  obtain ⟨s, htext, rfl, -⟩ := parse_eq_ok_iff.1 h
  have hscan := s.body.scan_tokens []
  rw [List.append_nil, scan, List.append_nil] at hscan
  rw [← htext, s.tokensOf_text, hscan]
  rfl

/-- The licenses and exceptions of a tree that was read are the words of
the text that stand where operands are expected. -/
theorem tokens_eq_operandWords
    (h : (parse text maxDepth stack).value = .ok t) :
    t.tokens.map String.toList
      = operandWords .operand (tokensOf (Script.chars text)) := by
  obtain ⟨s, htext, rfl, -⟩ := parse_eq_ok_iff.1 h
  have hwords := s.body.operandWords_tokens []
  rw [List.append_nil, operandWords, List.append_nil] at hwords
  rw [← htext, s.tokensOf_text, hwords, Draft.tokens_eq_listed]
  rfl

end Expr

/-- The text of a tree that was read is the scan of the text it was read
from; so its operands are kept letter by letter, whatever they are spelled
like, and a text that differs in nothing but blanks between its tokens and
the cases of its operators is read as the same tree. -/
theorem render_parse_canonical {τ : Type} [Script τ] (text : τ)
    (maxDepth : Int) (stack : Stack) (t : Expr)
    (h : (Expr.parse text maxDepth stack).value = .ok t) :
    t.render.toList = scan .operand (tokensOf (Script.chars text))
    ∧ t.tokens.map String.toList
      = operandWords .operand (tokensOf (Script.chars text))
    ∧ ∀ {σ : Type} [Script σ] (text' : σ) (maxDepth' : Int)
      (stack' : Stack) (t' : Expr),
      (Expr.parse text' maxDepth' stack').value = .ok t' →
      Respelled .operand (tokensOf (Script.chars text))
        (tokensOf (Script.chars text')) →
      t = t' := by
  have hrender := Expr.render_eq_scan h
  refine ⟨hrender, Expr.tokens_eq_operandWords h, ?_⟩
  intro σ _ text' maxDepth' stack' t' h' hrespelled
  have hrender' := Expr.render_eq_scan h'
  rw [← hrespelled.scan_eq, ← hrender, String.toList_inj] at hrender'
  exact (Expr.normal_of_parse h).1.eq_of_render_eq
    (Expr.normal_of_parse h').1 hrender'.symm

/-- A license called `or`, an operator spelled `oR`, and blanks of all kinds.
The text and its canonical form are both read, and as the same tree. -/
theorem render_parse_canonical_of_or :
    let t : Expr := .or (.license ⟨"or", none, false⟩)
      (.withException ⟨"And", none, false⟩ "x")
    (Expr.parse "or\toR\n And  with x").value = .ok t
    ∧ t.render.toList = "or OR And WITH x".toList
    ∧ (Expr.parse "or OR And WITH x").value = .ok t := by
  intro t
  have htokens : tokensOf "or\toR\n And  with x".toList
      = [.word "or".toList, .word "oR".toList, .word "And".toList,
        .word "with".toList, .word "x".toList] := by decide +kernel
  have htokens' : tokensOf "or OR And WITH x".toList
      = [.word "or".toList, .word "OR".toList, .word "And".toList,
        .word "WITH".toList, .word "x".toList] := by decide +kernel
  have hread : (Expr.parse "or\toR\n And  with x").value = .ok t := by
    decide +kernel
  obtain ⟨hrender, -, hsame⟩ := render_parse_canonical _ _ _ t hread
  refine ⟨hread, ?_, ?_⟩
  · exact hrender.trans ((congrArg (scan .operand) htokens).trans (by decide))
  · have hok : (Expr.parse "or OR And WITH x").value.isOk = true := by
      decide +kernel
    have hspelled : Respelled .operand
        (tokensOf "or\toR\n And  with x".toList)
        (tokensOf "or OR And WITH x".toList) := by
      rw [htokens, htokens']
      exact .operand _ (.operator (by decide) (.operand _
        (.operator (by decide) (.operand _ (.nil _)))))
    cases hread' : (Expr.parse "or OR And WITH x").value with
    | error error => rw [hread'] at hok; cases hok
    | ok t' => rw [hsame _ _ _ t' hread' hspelled]

end LicenseExpr
