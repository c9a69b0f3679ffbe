/-
What the depth limit does to a reading, and what it leaves alone.

Of all the failures of a rule only one goes through the rules above it: a
parenthesis that opens where no level is left. So three things are to be
shown of that failure, and each is an induction of its own.

  * It is reported only of a parenthesis that the grammar would go on with
    (`expression_soundDeep`): what was read up to it, then `(X)`, then the
    parentheses still open, is derived. Nothing was tried that a derivation
    would not try.
  * It is reported of every such parenthesis (`rule_reports`).
  * Where it is not reported, the levels made no difference
    (`expression_extends`), also to a text that is malformed.

The parenthesis in question is the first on its level, counted without
reading the text (`FirstOpensAt`).
-/
import LicenseExpr.Proofs.Parentheses
import LicenseExpr.Proofs.Acceptance

namespace LicenseExpr

open Text Recognizer

-- ============================================================== probes

/-- What makes an expression of a text that ends where a parenthesis is to
open on level `levels`: a license in parentheses, and the parentheses that
are still open. -/
def probe (levels : Nat) : List Char :=
  "(X)".toList ++ List.replicate levels ')'

theorem probe_succ (levels : Nat) :
    probe (levels + 1) = probe levels ++ [')'] := by
  rw [probe, List.replicate_succ', ← List.append_assoc]
  rfl

theorem wellFormed_probe : License.WellFormed ⟨"X", none, false⟩ := by
  refine ⟨rfl, Or.inl (by decide), ?_⟩
  intro h
  obtain ⟨c, tail, htext, -⟩ := h
  cases htext

/-- The license in parentheses that a probe begins with. -/
def probeFactor : Derivation .factor :=
  .parens ⟨[], by simp⟩
    (.term (.factor (.license ⟨"X", none, false⟩ wellFormed_probe)))
    ⟨[], by simp⟩

theorem text_probeFactor : probeFactor.text = "(X)".toList := by
  simp [probeFactor, Derivation.text]

/-- The grammar can make a phrase of `read` and a parenthesis that opens
behind it on level `levels`, and none has opened on that level before. -/
def Reaches (p : Phrase) (levels : Nat) (read : List Char) : Prop :=
  (∃ d : Derivation p, d.text = read ++ probe levels)
    ∧ OpensBelow levels read

section Reaches

variable {p q : Phrase} {levels : Nat} {read : List Char}
  {word : String} {join : Expr → Expr → Expr}

/-- A parenthesis at the very front is reached on the lowest level. -/
theorem reaches_nil : Reaches .factor 0 [] :=
  ⟨⟨probeFactor, text_probeFactor⟩, opensBelow_of_notMem List.not_mem_nil⟩

/-- A probe closes the parentheses that are open. -/
theorem surplus_probe (levels : Nat) : surplus (probe levels) = -levels := by
  induction levels with
  | zero => rfl
  | succ levels ih =>
      rw [probe_succ, surplus_append, ih]
      have hone : surplus [')'] = -1 := rfl
      omega

/-- A phrase that is reached stands on the level of the probe. -/
theorem Reaches.surplus (h : Reaches p levels read) :
    surplus read = levels := by
  obtain ⟨⟨d, hd⟩, -⟩ := h
  -- the probe makes up for the surplus, since a phrase has none
  have hzero := d.surplus_text
  rw [hd, surplus_append, surplus_probe] at hzero
  omega

/-- What is reached inside parentheses is reached one level up in the whole.
-/
theorem Reaches.parens (opening : Blanks)
    (h : Reaches .expression levels read) :
    Reaches .factor (levels + 1) ('(' :: (opening.chars ++ read)) := by
  obtain ⟨⟨d, hd⟩, hbelow⟩ := h
  have hopening := plain_of_isBlank opening.areBlank
  constructor
  · refine ⟨.parens opening d ⟨[], by simp⟩, ?_⟩
    simp [Derivation.text, hd, probe_succ]
  · rw [opensBelow_succ, hopening.opensBelow_append]
    exact hbelow

/-- What is reached in an operand is reached in the list of it alone. -/
theorem Reaches.one (chain : Chain p q word join)
    (h : Reaches p levels read) : Reaches q levels read := by
  obtain ⟨⟨d, hd⟩, hbelow⟩ := h
  exact ⟨⟨chain.one d, by rw [chain.text_one, hd]⟩, hbelow⟩

/-- What is reached in the last operand is reached in the list, if what stands
in front of it keeps to the levels. -/
theorem Reaches.more (chain : Chain p q word join) {left : Derivation q}
    (hleft : left.tree.nesting ≤ levels) (s : Spelling word)
    (h : Reaches p levels read) :
    Reaches q levels (left.text ++ s.text ++ read) := by
  obtain ⟨⟨d, hd⟩, hbelow⟩ := h
  have hspelling := Derivation.plain_spelling chain.isOperatorWord s
  constructor
  · refine ⟨chain.more left s d, ?_⟩
    rw [chain.text_more, hd, List.append_assoc _ read]
  · rw [List.append_assoc, opensBelow_append, left.surplus_text,
      Int.sub_zero, hspelling.opensBelow_append]
    exact ⟨(left.opensBelow_text levels).2 hleft, hbelow⟩

end Reaches

-- ==================================== what is reported would be derived

/-- Where the rule ends at a parenthesis, the grammar can make a phrase of
the kind `p` of what was read and the parenthesis. -/
def Rule.SoundDeep (rule : Rule) (p : Phrase) (levels : Nat) : Prop :=
  ∀ cs ahead, (rule cs).val = .tooDeep ahead →
    ∃ read more, ahead = '(' :: more ∧ cs = read ++ ahead
      ∧ Reaches p levels read

namespace Grammar

variable {p q : Phrase} {levels : Nat} {operand bracket : Rule}

/-- A list ends at a parenthesis that its first operand ends at, or one behind
an operator. -/
theorem operands_soundDeep {word : String} {join : Expr → Expr → Expr}
    (chain : Chain p q word join) (hoperand : operand.Sound p levels)
    (hdeep : operand.SoundDeep p levels) :
    (operands word join operand : Rule).SoundDeep q levels := by
  intro cs
  refine operands_run chain hoperand
    (motive := fun o => ∀ ahead, o = .tooDeep ahead →
      ∃ read more, ahead = '(' :: more ∧ cs = read ++ ahead
        ∧ Reaches q levels read) ?_ ?_ ?_ ?_
  · intro d rest _ _ _ ahead h
    cases h
  · intro _ ahead h
    cases h
  · intro deep hfirst ahead h
    cases h
    obtain ⟨read, more, hahead, hcs, hreach⟩ := hdeep _ _ hfirst
    exact ⟨read, more, hahead, hcs, hreach.one chain⟩
  · intro d s behind deep hnesting hcs hnext ahead h
    cases h
    obtain ⟨read, more, hahead, rfl, hreach⟩ := hdeep _ _ hnext
    refine ⟨d.text ++ s.text ++ read, more, hahead, ?_,
      hreach.more chain hnesting s⟩
    rw [hcs, List.append_assoc _ read]

theorem factorOf_soundDeep (hbracket : bracket.SoundDeep .factor levels) :
    (factorOf bracket).SoundDeep .factor levels := by
  intro cs ahead h
  rw [factorOf_val] at h
  split at h
  case h_1 => cases h
  case h_2 => exact hbracket _ _ h

theorem termOf_soundDeep (hsound : bracket.Sound .factor levels)
    (hbracket : bracket.SoundDeep .factor levels) :
    (termOf bracket).SoundDeep .term levels :=
  operands_soundDeep termChain (factorOf_sound hsound)
    (factorOf_soundDeep hbracket)

theorem expressionOf_soundDeep (hsound : bracket.Sound .factor levels)
    (hbracket : bracket.SoundDeep .factor levels) :
    (expressionOf bracket).SoundDeep .expression levels :=
  operands_soundDeep expressionChain
    (operands_sound termChain (factorOf_sound hsound))
    (termOf_soundDeep hsound hbracket)

/-- One level more: what was too deep inside is too deep in the whole. -/
theorem parenthesized_soundDeep {inside : Rule}
    (hinside : inside.SoundDeep .expression levels) :
    (parenthesized inside).SoundDeep .factor (levels + 1) := by
  intro cs ahead h
  rw [parenthesized_val] at h
  split at h
  case h_2 => cases h
  case h_1 behind =>
    obtain ⟨opening, start, rfl, hopening, -, hstart⟩ :=
      exists_skipBlanks behind
    rw [hstart] at h
    split at h
    case h_1 => split at h <;> cases h
    case h_2 =>
      obtain ⟨read, more, hahead, rfl, hreach⟩ := hinside _ _ h
      refine ⟨'(' :: (opening ++ read), more, hahead, ?_,
        hreach.parens ⟨opening, hopening⟩⟩
      rw [List.cons_append, List.append_assoc]

/-- With no level left it is the parenthesis itself that is too deep, and
nothing was read in front of it. -/
theorem group_soundDeep (levels : Nat) :
    Rule.SoundDeep (group levels) .factor levels := by
  induction levels with
  | zero =>
      intro cs ahead h
      simp only [group, noParenthesis] at h
      split at h
      case h_2 => cases h
      case h_1 more =>
        cases h
        exact ⟨[], more, rfl, rfl, reaches_nil⟩
  | succ levels ih =>
      exact parenthesized_soundDeep
        (expressionOf_soundDeep (group_sound levels) ih)

/-- Where an expression ends at a parenthesis that is too deep, the grammar
can make an expression of what was read and the parenthesis. -/
theorem expression_soundDeep (levels : Nat) :
    (expression levels).SoundDeep .expression levels :=
  expressionOf_soundDeep (group_sound levels) (group_soundDeep levels)

-- ================================= what would be derived is reported

/-- Where a phrase opens a parenthesis on level `levels`, the first one
there, the rule ends at it, whatever stands behind it. -/
def Reports (rule : Rule) (levels : Nat) (d : Derivation p) : Prop :=
  ∀ read tail, d.text = read ++ '(' :: tail → OpensBelow levels read →
    surplus read = levels →
    ∀ more, (rule (read ++ '(' :: more)).val = .tooDeep ('(' :: more)

/-- What begins like a derivation up to a parenthesis does not begin with a
blank. -/
theorem notAhead_opening (d : Derivation p) {read tail : List Char}
    (h : d.text = read ++ '(' :: tail) (more : List Char) :
    NotAhead isBlank (read ++ '(' :: more) := by
  cases read with
  | nil =>
      rw [List.nil_append, notAhead_cons]
      decide
  | cons c read =>
      have hahead := d.notAhead_text []
      rw [h] at hahead
      exact hahead

/-- Without parentheses there is nothing to report. -/
theorem reports_of_plain {d : Derivation p} (h : Plain d.text)
    (rule : Rule) : Reports rule levels d := by
  intro read tail htext
  rw [htext] at h
  exact absurd (by simp) h.notMem

/-- A parenthesis that is too deep is the opening one, or it opens inside. -/
theorem reports_parens (opening closing : Blanks)
    {inner : Derivation .expression}
    (ih : ∀ levels, Reports (expression levels) levels inner) :
    Reports (factor levels) levels (.parens opening inner closing) := by
  intro read tail htext hbelow hlevel more
  cases read with
  | nil =>
      obtain rfl : levels = 0 := (Int.ofNat_inj.1 hlevel).symm
      rw [List.nil_append, factor_parenthesis]
      rfl
  | cons c read =>
      rw [Derivation.text, List.cons_append, List.cons.injEq] at htext
      obtain ⟨rfl, htext⟩ := htext
      -- the parenthesis opens neither in the blanks nor at the end
      have hopening := plain_of_isBlank opening.areBlank
      have hbehind : '(' ∉ closing.chars ++ [')'] := by
        simp [(plain_of_isBlank closing.areBlank).notMem]
      rw [List.append_assoc, List.append_assoc] at htext
      obtain ⟨read', tail', rfl, hinside⟩ :=
        opening_between hopening.notMem hbehind htext
      cases levels with
      | zero => exact absurd hbelow not_opensBelow_zero
      | succ levels =>
          rw [opensBelow_succ, hopening.opensBelow_append] at hbelow
          have hinner : surplus read' = levels := by
            rw [surplus_cons, hopening.surplus_append] at hlevel
            have hone : surplus ['('] = 1 := rfl
            omega
          have hdeep := ih levels read' tail' hinside hbelow hinner more
          rw [expression] at hdeep
          rw [List.cons_append, factor_parenthesis, group,
            parenthesized_val]
          simp only
          rw [List.append_assoc, skipBlanks_run opening.areBlank
            (notAhead_opening inner hinside more), hdeep]

theorem operands_deep {word : String} {join : Expr → Expr → Expr}
    {cs deep : List Char} (h : (operand cs).val = .tooDeep deep) :
    (operands word join operand cs).val = .tooDeep deep := by
  rw [operands_val, h]

/-- A list reports a parenthesis where its last operand does or what is in
front of the last operand. -/
theorem reports_more {word : String} {join : Expr → Expr → Expr}
    (chain : Chain p q word join) {left : Derivation q} {s : Spelling word}
    {right : Derivation p}
    (hrun : ∀ rest, left.tree.nesting ≤ levels → NotAhead isBlank rest →
      (operands word join operand (left.text ++ (s.text ++ rest))).val
        = (joinOperands word join operand left.tree
            (s.text ++ rest)).val)
    (hleft : Reports (operands word join operand) levels left)
    (hright : Reports operand levels right) :
    Reports (operands word join operand) levels
      (chain.more left s right) := by
  intro read tail htext hbelow hlevel more
  have hspelling := Derivation.plain_spelling chain.isOperatorWord s
  rw [chain.text_more, List.append_assoc] at htext
  -- the first of its level stands on the left or not: then everything on the
  -- left has closed, and the last operand is on the same level
  rcases split_opening htext with ⟨tail', hopen, -⟩ | ⟨behind, rfl, hrest⟩
  · exact hleft read tail' hopen hbelow hlevel more
  obtain ⟨read', rfl, hopen⟩ := opening_behind hspelling.notMem hrest
  rw [opensBelow_append, left.surplus_text, Int.sub_zero,
    hspelling.opensBelow_append] at hbelow
  obtain ⟨hnesting, hbelow⟩ := hbelow
  rw [surplus_append, left.surplus_text, Int.zero_add,
    hspelling.surplus_append] at hlevel
  have hblank := notAhead_opening right hopen more
  have hop := operator_complete chain.isOperatorWord s hblank
  have hdeep := hright read' tail hopen hbelow hlevel more
  rw [List.append_assoc, List.append_assoc,
    hrun _ ((left.opensBelow_text levels).1 hnesting) hblank]
  exact joinOperands_deep hop hdeep

/-- A rule reports every parenthesis that a derivation opens on a level that
is not left, if it is the first one there. -/
theorem rule_reports (d : Derivation p) (levels : Nat) :
    Reports (p.rule levels) levels d := by
  induction d generalizing levels with
  | license l wellFormed =>
      exact reports_of_plain (d := .license l wellFormed)
        (Derivation.plain_license wellFormed) _
  | withException l wellFormed s name isName =>
      exact reports_of_plain (d := .withException l wellFormed s name isName)
        (Derivation.plain_withException wellFormed s isName) _
  | parens opening inner closing ih => exact reports_parens opening closing ih
  | factor only ih =>
      intro read tail htext hbelow hlevel more
      exact operands_deep (ih levels read tail htext hbelow hlevel more)
  | and left s right ihl ihr =>
      refine reports_more termChain ?_ (ihl levels) (ihr levels)
      intro rest hnesting hrest
      exact rule_text left hnesting (s.borders_and hrest)
  | term only ih =>
      intro read tail htext hbelow hlevel more
      exact operands_deep (ih levels read tail htext hbelow hlevel more)
  | or left s right ihl ihr =>
      refine reports_more expressionChain ?_ (ihl levels) (ihr levels)
      intro rest hnesting hrest
      exact rule_text left hnesting (s.borders_or hrest)

end Grammar

-- ========================================== where nothing is reported

/-- Where `rule` does not end at a parenthesis that is too deep, `deeper`
answers the same. -/
def Rule.Extends (deeper rule : Rule) : Prop :=
  ∀ cs, (∀ ahead, (rule cs).val ≠ .tooDeep ahead) →
    (deeper cs).val = (rule cs).val

namespace Grammar

variable {levels : Nat} {operand bracket : Rule}

/-- The operands behind the first are the same: one that is absent is absent
with more levels, too, and one that is found is found. -/
theorem joinOperands_extends {deeper : Rule} (h : deeper.Extends operand)
    (word : String) (join : Expr → Expr → Expr) (first : Expr)
    (cs : List Char)
    (hnot : ∀ ahead,
      (joinOperands word join operand first cs).val ≠ .tooDeep ahead) :
    (joinOperands word join deeper first cs).val
      = (joinOperands word join operand first cs).val := by
  have key := joinOperands_run word join operand
    (motive := fun first cs o => (∀ ahead, o ≠ .tooDeep ahead) →
      (joinOperands word join deeper first cs).val = o)
    ?_ ?_ ?_ first cs
  · exact key hnot
  · intro first cs habsent _
    cases hop : operator word cs with
    | none => exact joinOperands_stop hop
    | some found =>
        obtain ⟨⟨⟩, ahead⟩ := found
        have hahead := habsent ahead hop
        -- an absent operand is no parenthesis that is too deep, so `h`
        -- applies
        have hdeeper : (deeper ahead).val = .absent := by
          rw [h ahead (by rw [hahead]; intro deep; exact nofun), hahead]
        rw [joinOperands_val, hop]
        simp only [hdeeper]
  · intro first cs ahead deep _ _ hnot
    exact absurd rfl (hnot deep)
  · intro first cs ahead next rest o hop hnext ih hnot
    have hdeeper : (deeper ahead).val = .found next rest := by
      rw [h ahead (by rw [hnext]; intro deep; exact nofun), hnext]
    rw [joinOperands_more hop hdeeper]
    exact ih hnot

/-- A list extends with its operands, the first of which is read on its own.
-/
theorem operands_extends {deeper : Rule} (h : deeper.Extends operand)
    (word : String) (join : Expr → Expr → Expr) :
    Rule.Extends (operands word join deeper)
      (operands word join operand) := by
  intro cs hnot
  have hfirst : ∀ ahead, (operand cs).val ≠ .tooDeep ahead := by
    intro ahead hdeep
    exact hnot ahead (operands_deep hdeep)
  rw [operands_val] at hnot
  rw [operands_val, operands_val, h cs hfirst]
  split at hnot
  case h_1 first rest hfound =>
    exact joinOperands_extends h word join first rest hnot
  case h_2 => rfl
  case h_3 deep hdeep => exact absurd hdeep (hfirst deep)

theorem factorOf_extends {deeper : Rule} (h : deeper.Extends bracket) :
    Rule.Extends (factorOf deeper) (factorOf bracket) := by
  intro cs hnot
  rw [factorOf_val] at hnot
  rw [factorOf_val, factorOf_val]
  split
  case h_1 => rfl
  case h_2 hlicensed =>
    rw [hlicensed] at hnot
    exact h cs hnot

theorem expressionOf_extends {deeper : Rule} (h : deeper.Extends bracket) :
    Rule.Extends (expressionOf deeper) (expressionOf bracket) :=
  operands_extends (operands_extends (factorOf_extends h) _ _) _ _

/-- What stands inside makes the difference. -/
theorem parenthesized_extends {inside deeper : Rule}
    (h : deeper.Extends inside) :
    Rule.Extends (parenthesized deeper) (parenthesized inside) := by
  intro cs hnot
  rw [parenthesized_val] at hnot
  rw [parenthesized_val, parenthesized_val]
  split
  case h_2 => rfl
  case h_1 ahead =>
    rw [h]
    intro deep hdeep
    simp only [hdeep] at hnot
    exact hnot deep rfl

/-- A rule with no level left is extended by every other one, because it finds
nothing and is absent only where no parenthesis opens. -/
theorem group_extends {levels deeper : Nat} (h : levels ≤ deeper) :
    Rule.Extends (group deeper) (group levels) := by
  induction levels generalizing deeper with
  | zero =>
      intro cs hnot
      simp only [group, noParenthesis] at hnot ⊢
      split at hnot
      case h_1 ahead => exact absurd rfl (hnot _)
      case h_2 hparen =>
        cases deeper with
        | zero =>
            simp only [group, noParenthesis]
        | succ deeper =>
            rw [group, parenthesized_val]
            split
            case h_1 ahead => exact absurd rfl (hparen ahead)
            case h_2 => rfl
  | succ levels ih =>
      cases deeper with
      | zero => exact absurd h (Nat.not_succ_le_zero levels)
      | succ deeper =>
          exact parenthesized_extends
            (expressionOf_extends (ih (Nat.le_of_succ_le_succ h)))

/-- More levels change nothing where no parenthesis was too deep. -/
theorem expression_extends {levels deeper : Nat} (h : levels ≤ deeper) :
    Rule.Extends (expression deeper) (expression levels) :=
  expressionOf_extends (group_extends h)

/-- Two readings in which no parenthesis was too deep come to the same. -/
theorem expression_eq {levels levels' : Nat} {cs : List Char}
    (h : ∀ ahead, (expression levels cs).val ≠ .tooDeep ahead)
    (h' : ∀ ahead, (expression levels' cs).val ≠ .tooDeep ahead) :
    (expression levels cs).val = (expression levels' cs).val := by
  rcases Nat.le_total levels levels' with hle | hle
  · exact (expression_extends hle cs h).symm
  · exact expression_extends hle cs h'

/-- A reading that may open more levels than there are parentheses is at
none of them too deep. -/
theorem expression_ne_tooDeep {levels : Nat} {cs : List Char}
    (h : cs.count '(' ≤ levels) (ahead : List Char) :
    (expression levels cs).val ≠ .tooDeep ahead := by
  intro hdeep
  obtain ⟨read, more, rfl, rfl, hreach⟩ :=
    expression_soundDeep levels _ _ hdeep
  have hsurplus := hreach.surplus
  have hle := surplus_le_count read
  rw [List.count_append, List.count_cons_self] at h
  omega

end Grammar

end LicenseExpr
