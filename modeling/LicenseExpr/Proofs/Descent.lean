/-
Recursive descent and the grammar: what a rule finds is derived (soundness),
and what is derived is found where nothing behind it could be read with it
(completeness).

# Lists

Terms and expressions are read by the same loop, which differs in the
operator, the operand and the node it makes. `Chain` names what the grammar
has for such a list, so that each fact about the loop is proved once and
used for AND and for OR. The loop itself is opened once, by
`joinOperands_run`; every later induction over the operands of a list is by
that principle.

# Completeness of a left recursive grammar

A derivation of a list ends in its last operand, but the loop starts with
the first one. So what is proved by induction on the derivation is that the
rule, in front of the text and anything that may stand behind it, is as far
as the loop is that has joined all of the text already (`goOn`). Where the
text is closed the loop ends there.
-/
import LicenseExpr.Proofs.Derivation
import LicenseExpr.Grammar

namespace LicenseExpr

open Text Recognizer

-- ================================================================ chains

/-- A kind of phrase that is a list: operands of one kind, joined by one
operator. -/
structure Chain (operand list : Phrase) (word : String)
    (join : Expr → Expr → Expr) where
  one : Derivation operand → Derivation list
  more : Derivation list → Spelling word → Derivation operand →
    Derivation list
  isOperatorWord : IsOperatorWord word
  text_one : ∀ d, (one d).text = d.text
  tree_one : ∀ d, (one d).tree = d.tree
  text_more : ∀ left s right,
    (more left s right).text = left.text ++ s.text ++ right.text
  tree_more : ∀ left s right,
    (more left s right).tree = join left.tree right.tree
  nesting_join : ∀ left right : Expr,
    (join left right).nesting = max left.nesting right.nesting

/-- A term is a list of factors. -/
def termChain : Chain .factor .term "AND" .and where
  one := .factor
  more := .and
  isOperatorWord := isOperatorWord_and
  text_one _ := rfl
  tree_one _ := rfl
  text_more _ _ _ := rfl
  tree_more _ _ _ := rfl
  nesting_join _ _ := rfl

/-- An expression is a list of terms. -/
def expressionChain : Chain .term .expression "OR" .or where
  one := .term
  more := .or
  isOperatorWord := isOperatorWord_or
  text_one _ := rfl
  tree_one _ := rfl
  text_more _ _ _ := rfl
  tree_more _ _ _ := rfl
  nesting_join _ _ := rfl

/-- The rule for a kind of phrase, where `levels` levels of parentheses may
be opened. -/
def Phrase.rule (levels : Nat) : Phrase → Rule
  | factor => Grammar.factor levels
  | term => Grammar.term levels
  | expression => Grammar.expression levels

namespace Grammar

/-- The loop over the operands of a list: it stops in front of what it
cannot go on with, it fails where an operand is too deep, or it joins one
operand more and goes on. -/
theorem joinOperands_run (word : String) (join : Expr → Expr → Expr)
    (operand : Rule) {motive : Expr → List Char → Outcome → Prop}
    (stop : ∀ first cs,
      (∀ ahead, operator word cs = some ((), ahead) →
        (operand ahead).val = .absent) →
      motive first cs (.found first cs))
    (deep : ∀ first cs ahead deep, operator word cs = some ((), ahead) →
      (operand ahead).val = .tooDeep deep → motive first cs (.tooDeep deep))
    (more : ∀ first cs ahead next rest o,
      operator word cs = some ((), ahead) →
      (operand ahead).val = .found next rest →
      motive (join first next) rest o → motive first cs o)
    (first : Expr) (cs : List Char) :
    motive first cs (joinOperands word join operand first cs).val := by
  suffices key : ∀ (n : Nat) (first : Expr) (cs : List Char),
      cs.length = n →
      motive first cs (joinOperands word join operand first cs).val from
    key _ first cs rfl
  intro n
  -- on the length of the text: an operator and an operand are taken off it in
  -- each round
  induction n using Nat.strongRecOn with
  | ind n ih =>
      intro first cs hlen
      subst hlen
      rw [joinOperands_val]
      split
      case h_1 hop =>
        refine stop first cs fun ahead hahead => ?_
        rw [hop] at hahead
        cases hahead
      case h_2 ahead hop =>
        split
        case h_1 habsent =>
          refine stop first cs fun ahead' hahead => ?_
          rw [hop] at hahead
          cases hahead
          exact habsent
        case h_2 ahead' hdeep => exact deep first cs ahead ahead' hop hdeep
        case h_3 next rest hfound =>
          have hrest : rest.length < ahead.length := by
            have h := (operand ahead).property
            rw [hfound] at h
            exact h
          have hahead : ahead.length < cs.length :=
            operator_consumes word hop
          exact more first cs ahead next rest _ hop hfound
            (ih rest.length (Nat.lt_trans hrest hahead) _ rest rfl)

end Grammar

-- ============================================================= soundness

/-- What the rule finds is derived as a phrase of the kind `p`, and nests
parentheses at most `levels` deep. -/
def Rule.Sound (rule : Rule) (p : Phrase) (levels : Nat) : Prop :=
  ∀ cs t rest, (rule cs).val = .found t rest →
    ∃ d : Derivation p, d.tree = t ∧ cs = d.text ++ rest
      ∧ t.nesting ≤ levels

namespace Grammar

variable {p q : Phrase} {levels : Nat} {operand bracket : Rule}

/-- What a list of sound operands comes to. It stops behind a derivation
that it cannot go on from, its first operand is absent or too deep, or an
operand behind a derivation and an operator is too deep. The loop carries
the derivation of what is joined already. -/
theorem operands_run {word : String} {join : Expr → Expr → Expr}
    (chain : Chain p q word join) (hoperand : operand.Sound p levels)
    {cs : List Char} {motive : Outcome → Prop}
    (stop : ∀ (d : Derivation q) rest, d.tree.nesting ≤ levels →
      cs = d.text ++ rest →
      (∀ ahead, operator word rest = some ((), ahead) →
        (operand ahead).val = .absent) →
      motive (.found d.tree rest))
    (absent : (operand cs).val = .absent → motive .absent)
    (first : ∀ deep, (operand cs).val = .tooDeep deep →
      motive (.tooDeep deep))
    (deep : ∀ (d : Derivation q) (s : Spelling word) ahead deep,
      d.tree.nesting ≤ levels → cs = d.text ++ s.text ++ ahead →
      (operand ahead).val = .tooDeep deep → motive (.tooDeep deep)) :
    motive (operands word join operand cs).val := by
  rw [operands_val]
  split
  case h_2 h => exact absent h
  case h_3 h => exact first _ h
  case h_1 only behind honly =>
    obtain ⟨d, rfl, rfl, hnesting⟩ := hoperand _ _ _ honly
    have key := joinOperands_run word join operand
      (motive := fun joined ahead o => ∀ d' : Derivation q,
        d'.tree = joined → d'.tree.nesting ≤ levels →
        d.text ++ behind = d'.text ++ ahead → motive o)
      ?_ ?_ ?_ d.tree behind
    · refine key (chain.one d) (chain.tree_one d) ?_ ?_
      · rw [chain.tree_one]
        exact hnesting
      · rw [chain.text_one]
    -- the loop stops, fails or goes on, with the derivation `d'` of what is
    -- joined so far
    · intro joined ahead habsent d' hd hle htext
      rw [← hd]
      exact stop d' ahead hle htext habsent
    · intro joined ahead behind' tooDeep hop hdeep d' hd hle htext
      obtain ⟨s, rfl, -⟩ := operator_sound hop
      refine deep d' s behind' tooDeep hle ?_ hdeep
      rw [htext, List.append_assoc]
    · intro joined ahead behind' next rest o hop hnext ih d' hd hle htext
      obtain ⟨s, rfl, -⟩ := operator_sound hop
      obtain ⟨right, rfl, rfl, hright⟩ := hoperand _ _ _ hnext
      refine ih (chain.more d' s right) ?_ ?_ ?_
      · rw [chain.tree_more, hd]
      · rw [chain.tree_more, chain.nesting_join]
        exact Nat.max_le.2 ⟨hle, hright⟩
      · rw [htext, chain.text_more]
        simp only [List.append_assoc]

/-- A list is sound if its operands are. -/
theorem operands_sound {word : String} {join : Expr → Expr → Expr}
    (chain : Chain p q word join) (hoperand : operand.Sound p levels) :
    (operands word join operand : Rule).Sound q levels := by
  intro cs
  refine operands_run chain hoperand
    (motive := fun o => ∀ t rest, o = .found t rest →
      ∃ d : Derivation q, d.tree = t ∧ cs = d.text ++ rest
        ∧ t.nesting ≤ levels) ?_ ?_ ?_ ?_
  · intro d rest hnesting htext _ t rest' h
    cases h
    exact ⟨d, rfl, htext, hnesting⟩
  · intro _ t rest h
    cases h
  · intro deep _ t rest h
    cases h
  · intro d s ahead deep _ _ _ t rest h
    cases h

/-- A license, with its exception if it is read, is derived as a factor. -/
theorem licensed_sound {cs rest : List Char} {t : Expr}
    (h : licensed cs = some (t, rest)) :
    ∃ d : Derivation .factor, d.tree = t ∧ cs = d.text ++ rest
      ∧ t.nesting = 0 := by
  simp only [licensed] at h
  split at h
  case h_1 => cases h
  case h_2 l behind hl =>
    obtain ⟨rfl, hwell⟩ := license_sound hl
    split at h
    case h_1 name behind' he =>
      cases h
      obtain ⟨s, rfl, hname, -⟩ := exception_eq_some_iff.1 he
      refine ⟨.withException l hwell s name hname, rfl, ?_, rfl⟩
      simp [Derivation.text]
    case h_2 =>
      cases h
      exact ⟨.license l hwell, rfl, rfl, rfl⟩

/-- A factor is sound if what it has for parentheses is. -/
theorem factorOf_sound (hbracket : bracket.Sound .factor levels) :
    (factorOf bracket).Sound .factor levels := by
  intro cs t rest h
  rw [factorOf_val] at h
  split at h
  case h_1 expr behind hlicensed =>
    cases h
    obtain ⟨d, hd, hcs, hnesting⟩ := licensed_sound hlicensed
    exact ⟨d, hd, hcs, by rw [hnesting]; exact Nat.zero_le _⟩
  case h_2 => exact hbracket _ _ _ h

/-- And with it the lists that are made of factors. -/
theorem expressionOf_sound (hbracket : bracket.Sound .factor levels) :
    (expressionOf bracket).Sound .expression levels :=
  operands_sound expressionChain
    (operands_sound termChain (factorOf_sound hbracket))

/-- Parentheses around an expression nest it one level deeper. -/
theorem parenthesized_sound {inside : Rule}
    (hinside : inside.Sound .expression levels) :
    (parenthesized inside).Sound .factor (levels + 1) := by
  intro cs t rest h
  rw [parenthesized_val] at h
  split at h
  case h_2 => cases h
  case h_1 ahead =>
    obtain ⟨opening, start, rfl, hopening, -, hstart⟩ :=
      exists_skipBlanks ahead
    rw [hstart] at h
    split at h
    case h_2 hnone => exact absurd h (hnone t rest)
    case h_1 inner behind hinner =>
      obtain ⟨d, rfl, rfl, hnesting⟩ := hinside _ _ _ hinner
      obtain ⟨closing, end', rfl, hclosing, -, hend⟩ :=
        exists_skipBlanks behind
      rw [hend] at h
      split at h
      case h_2 => cases h
      case h_1 rest' =>
        cases h
        refine ⟨.parens ⟨opening, hopening⟩ d ⟨closing, hclosing⟩, rfl, ?_,
          Nat.succ_le_succ hnesting⟩
        simp [Derivation.text]

/-- Parentheses are sound on every level; with none left, none is found. -/
theorem group_sound (levels : Nat) :
    Rule.Sound (group levels) .factor levels := by
  induction levels with
  | zero =>
      intro cs t rest h
      simp only [group, noParenthesis] at h
      split at h <;> cases h
  | succ levels ih => exact parenthesized_sound (expressionOf_sound ih)

/-- What a rule finds is derived, and nested no deeper than it may. -/
theorem rule_sound (levels : Nat) (p : Phrase) :
    (p.rule levels).Sound p levels := by
  have hfactor := factorOf_sound (group_sound levels)
  cases p with
  | factor => exact hfactor
  | term => exact operands_sound termChain hfactor
  | expression =>
      exact operands_sound expressionChain
        (operands_sound termChain hfactor)

end Grammar

-- ========================================================== completeness

/-- What may stand behind a phrase for its rule to go on from there: nothing
that would make its last operand longer. -/
def Phrase.Borders : Phrase → List Char → Prop
  | expression, rest => NotAhead isLicenseChar rest
      ∧ operator "WITH" rest = none ∧ operator "AND" rest = none
  | _, rest => NotAhead isLicenseChar rest ∧ operator "WITH" rest = none

/-- An AND borders on the term to its left. -/
theorem Spelling.borders_and (s : Spelling "AND") {rest : List Char}
    (hrest : NotAhead isBlank rest) :
    Phrase.term.Borders (s.text ++ rest) :=
  ⟨s.notAhead_text rest, operator_of_other isOperatorWord_with
    isOperatorWord_and (by decide) s hrest⟩

/-- An OR borders on the expression to its left. -/
theorem Spelling.borders_or (s : Spelling "OR") {rest : List Char}
    (hrest : NotAhead isBlank rest) :
    Phrase.expression.Borders (s.text ++ rest) :=
  ⟨s.notAhead_text rest,
    operator_of_other isOperatorWord_with isOperatorWord_or (by decide) s
      hrest,
    operator_of_other isOperatorWord_and isOperatorWord_or (by decide) s
      hrest⟩

/-- The rule for a kind of phrase from where `first` is read already. -/
def Phrase.goOn (levels : Nat) : Phrase → Expr → List Char → Outcome
  | factor, first, rest => .found first rest
  | term, first, rest =>
      (Grammar.joinOperands "AND" .and (Grammar.factor levels) first
        rest).val
  | expression, first, rest =>
      (Grammar.joinOperands "OR" .or (Grammar.term levels) first rest).val

namespace Grammar

variable {p q : Phrase} {levels : Nat} {operand : Rule}
  {word : String} {join : Expr → Expr → Expr} {first next : Expr}
  {cs ahead rest : List Char}

/-- The loop ends where no operator follows. -/
theorem joinOperands_stop (hop : operator word cs = none) :
    (joinOperands word join operand first cs).val = .found first cs := by
  rw [joinOperands_val, hop]

/-- The loop goes on behind an operator and an operand. -/
theorem joinOperands_more (hop : operator word cs = some ((), ahead))
    (hnext : (operand ahead).val = .found next rest) :
    (joinOperands word join operand first cs).val
      = (joinOperands word join operand (join first next) rest).val := by
  rw [joinOperands_val, hop]
  simp only [hnext]

/-- The loop fails with the operand behind an operator. -/
theorem joinOperands_deep {deep : List Char}
    (hop : operator word cs = some ((), ahead))
    (hdeep : (operand ahead).val = .tooDeep deep) :
    (joinOperands word join operand first cs).val = .tooDeep deep := by
  rw [joinOperands_val, hop]
  simp only [hdeep]

/-- A list of one operand is where the loop starts. -/
theorem operands_one (h : (operand cs).val = .found first rest) :
    (operands word join operand cs).val
      = (joinOperands word join operand first rest).val := by
  rw [operands_val, h]

/-- The loop has joined a list if it has joined the list but for its last
operand, and the operand is read. -/
theorem operands_more (chain : Chain p q word join) (left : Derivation q)
    (s : Spelling word) (right : Derivation p)
    (hleft : (operands word join operand
        (left.text ++ (s.text ++ (right.text ++ rest)))).val
      = (joinOperands word join operand left.tree
        (s.text ++ (right.text ++ rest))).val)
    (hright : (operand (right.text ++ rest)).val
      = .found right.tree rest) :
    (operands word join operand
        ((chain.more left s right).text ++ rest)).val
      = (joinOperands word join operand (chain.more left s right).tree
        rest).val := by
  have hop : operator word (s.text ++ (right.text ++ rest))
      = some ((), right.text ++ rest) :=
    operator_complete chain.isOperatorWord s (right.notAhead_text rest)
  rw [chain.text_more, chain.tree_more, List.append_assoc,
    List.append_assoc, hleft, joinOperands_more hop hright]

/-- A license that is closed is read without an exception. -/
theorem licensed_license {l : License} (hl : l.WellFormed)
    (hrest : Phrase.factor.Borders rest) :
    licensed (l.text.toList ++ rest) = some (.license l, rest) := by
  simp only [licensed, license_complete hl hrest.1,
    exception_of_operator hrest.2]

/-- A license is read with its exception. -/
theorem licensed_withException {l : License} (hl : l.WellFormed)
    (s : Spelling "WITH") {name : String} (hname : IsExceptionName name)
    (hrest : NotAhead isIdChar rest) :
    licensed (l.text.toList ++ s.text ++ name.toList ++ rest)
      = some (.withException l name, rest) := by
  have hexception : exception (s.text ++ (name.toList ++ rest))
      = some (name, rest) :=
    exception_eq_some_iff.2 ⟨s, by rw [List.append_assoc], hname, hrest⟩
  simp only [List.append_assoc, licensed,
    license_complete hl (s.notAhead_text _), hexception]

/-- A parenthesis is no license. -/
theorem licensed_parenthesis : licensed ('(' :: cs) = none := by
  have h : license ('(' :: cs) = none :=
    license_eq_none (notAhead_cons.2 rfl)
  simp only [licensed, h]

/-- A parenthesis is what a factor begins with if it is no license. -/
theorem factor_parenthesis (levels : Nat) (cs : List Char) :
    (factor levels ('(' :: cs)).val = (group levels ('(' :: cs)).val := by
  rw [factor, factorOf_val, licensed_parenthesis]

/-- Parentheses are read if what is inside is. -/
theorem factor_parens (opening closing : Blanks)
    (inner : Derivation .expression)
    (h : (expression levels
        (inner.text ++ (closing.chars ++ ')' :: rest))).val
      = .found inner.tree (closing.chars ++ ')' :: rest)) :
    (factor (levels + 1)
        ((Derivation.parens opening inner closing).text ++ rest)).val
      = .found (.parens inner.tree) rest := by
  have htext : (Derivation.parens opening inner closing).text ++ rest
      = '(' :: (opening.chars
        ++ (inner.text ++ (closing.chars ++ ')' :: rest))) := by
    simp [Derivation.text]
  have hclosing : skipBlanks (closing.chars ++ ')' :: rest) = ')' :: rest :=
    skipBlanks_run closing.areBlank (notAhead_cons.2 rfl)
  rw [htext, factor_parenthesis, group, parenthesized_val]
  simp only
  rw [inner.skipBlanks_text opening]
  rw [expression] at h
  simp only [h, hclosing]

/-- In front of the text of a derivation and of anything that may stand
behind it, a rule comes to where the text is read. -/
theorem rule_text (d : Derivation p) (hnesting : d.tree.nesting ≤ levels)
    (hrest : p.Borders rest) :
    (p.rule levels (d.text ++ rest)).val = p.goOn levels d.tree rest := by
  induction d generalizing levels rest with
  | license l hl =>
      rw [Phrase.rule, factor, factorOf_val, Derivation.text,
        licensed_license hl hrest]
      rfl
  | withException l hl s name hname =>
      rw [Phrase.rule, factor, factorOf_val, Derivation.text,
        licensed_withException hl s hname hrest.1.isIdChar]
      rfl
  | parens opening inner closing ih =>
      cases levels with
      | zero => exact absurd hnesting (Nat.not_succ_le_zero _)
      | succ levels =>
          -- inside, the text is closed by the parenthesis behind it
          have hclosed := closed_of_closing rest closing.areBlank
          refine factor_parens opening closing inner ?_
          have hinner := ih (Nat.le_of_succ_le_succ hnesting)
            ⟨hclosed.notAhead_license, hclosed.operator isOperatorWord_with,
              hclosed.operator isOperatorWord_and⟩
          exact hinner.trans
            (joinOperands_stop (hclosed.operator isOperatorWord_or))
  | factor only ih => exact operands_one (ih hnesting hrest)
  | and left s right ihl ihr =>
      obtain ⟨hleft, hright⟩ := Nat.max_le.1 hnesting
      exact operands_more termChain left s right
        (ihl hleft (s.borders_and (right.notAhead_text rest)))
        (ihr hright hrest)
  | term only ih =>
      refine operands_one ((ih hnesting ⟨hrest.1, hrest.2.1⟩).trans ?_)
      exact joinOperands_stop hrest.2.2
  | or left s right ihl ihr =>
      obtain ⟨hleft, hright⟩ := Nat.max_le.1 hnesting
      refine operands_more expressionChain left s right
        (ihl hleft (s.borders_or (right.notAhead_text rest)))
        ((ihr hright ⟨hrest.1, hrest.2.1⟩).trans ?_)
      exact joinOperands_stop hrest.2.2

/-- A text that the grammar derives is read to its end, where it is
closed. -/
theorem expression_text (d : Derivation .expression)
    (hnesting : d.tree.nesting ≤ levels) (hrest : Closed rest) :
    (expression levels (d.text ++ rest)).val = .found d.tree rest := by
  have h := rule_text d hnesting
    ⟨hrest.notAhead_license, hrest.operator isOperatorWord_with,
      hrest.operator isOperatorWord_and⟩
  exact h.trans (joinOperands_stop (hrest.operator isOperatorWord_or))

end Grammar

end LicenseExpr
