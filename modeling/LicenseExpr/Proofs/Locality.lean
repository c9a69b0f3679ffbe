/-
What a rule reads at an offset of a text depends on nothing but what it
reads.

A rule looks further than it reads. An operator may have no operand behind
it, a qualifier no reference, WITH no exception, and a parenthesis may never
close; then the rule goes back, and what it looked at is not part of what it
found. So it is not plain that the text could as well end where the rule
ends. But what is found is derived, and the text of a derivation is read to
its end, as the tree of the derivation, where nothing stands behind it
(`rule_cut`). Nothing more is needed: what stands in front of the offset is
not even seen.

# Rounds

The loop over the operands of a list goes round once for every operator that
has an operand behind it (`Round`). Each round ends behind where it began, as
the blanks around the operator alone take two characters, and the rounds lead
from the end of the first operand to the end of the list
(`joinOperands_rounds`).
-/
import LicenseExpr.Proofs.Acceptance
import LicenseExpr.Proofs.Delimited
import Mathlib.Logic.Relation

namespace LicenseExpr

open Text Recognizer

-- ================================================ rules at an offset

/-- A rule as a recognizer, which does not tell why nothing is found. -/
def Rule.recognizer (rule : Rule) : Recognizer Expr := fun cs =>
  match (rule cs).val with
  | .found t rest => some (t, rest)
  | .absent => none
  | .tooDeep _ => none

/-- Runs the rule for a kind of phrase at an offset of a text, inside of
`depth` levels of parentheses where `maxDepth` may be opened, and answers the
offset behind the phrase and its tree. -/
def Phrase.readAt (p : Phrase) (maxDepth depth : Int) (text : String)
    (start : Nat) : Option (Nat × Expr) :=
  (p.rule (maxDepth - depth).toNat).recognizer.at text start

variable {p q : Phrase} {levels : Nat} {maxDepth depth : Int}
  {text : String} {start stop : Nat} {t : Expr} {cs rest : List Char}

/-- It finds what the rule finds. -/
theorem Rule.recognizer_eq_some_iff {rule : Rule} :
    rule.recognizer cs = some (t, rest) ↔ (rule cs).val = .found t rest := by
  unfold Rule.recognizer
  cases (rule cs).val <;> simp

/-- A rule reads off the beginning of a text. -/
theorem rule_splits (p : Phrase) (levels : Nat) :
    (p.rule levels).recognizer.Splits := by
  intro cs t rest h
  obtain ⟨d, -, hcs, -⟩ :=
    Grammar.rule_sound levels p _ _ _ (Rule.recognizer_eq_some_iff.1 h)
  exact ⟨d.text, d.text_ne_nil, hcs⟩

/-- A phrase is read between two offsets if the rule leaves what is ahead of
the second one. -/
theorem readAt_eq_some_iff :
    p.readAt maxDepth depth text start = some (stop, t) ↔
      start < stop ∧ stop ≤ text.length
        ∧ (p.rule (maxDepth - depth).toNat (text.toList.drop start)).val
          = .found t (text.toList.drop stop) := by
  rw [Phrase.readAt, at_eq_some_iff (rule_splits p _),
    Rule.recognizer_eq_some_iff]

/-- What a rule finds in front of a text it finds at the offset where that
text begins, whatever stands there before. -/
theorem readAt_front (front : String)
    (h : (p.rule (maxDepth - depth).toNat cs).val = .found t rest) :
    p.readAt maxDepth depth (front ++ String.ofList cs) front.length
      = some (front.length + (cs.length - rest.length), t) := by
  have hahead : (front ++ String.ofList cs).toList.drop front.length
      = cs := by
    rw [String.toList_append, String.toList_ofList, ← String.length_toList,
      List.drop_left]
  rw [Phrase.readAt, Recognizer.at, hahead,
    Rule.recognizer_eq_some_iff.2 h, Option.map_some]

-- ================================================== cut off behind

/-- The end of the text may stand behind every phrase. -/
theorem borders_nil (p : Phrase) : p.Borders [] := by
  cases p with
  | factor => exact ⟨notAhead_nil, rfl⟩
  | term => exact ⟨notAhead_nil, rfl⟩
  | expression => exact ⟨notAhead_nil, rfl, rfl⟩

/-- At the end of the text no list goes on. -/
theorem goOn_nil (p : Phrase) (levels : Nat) (t : Expr) :
    p.goOn levels t [] = .found t [] := by
  cases p with
  | factor => rfl
  | term => exact Grammar.joinOperands_stop rfl
  | expression => exact Grammar.joinOperands_stop rfl

/-- The text of a derivation is read to its end, if nothing stands behind
it. -/
theorem rule_cut (d : Derivation p) (hnesting : d.tree.nesting ≤ levels) :
    (p.rule levels d.text).val = .found d.tree [] := by
  have h := Grammar.rule_text d hnesting (borders_nil p)
  rwa [List.append_nil, goOn_nil] at h

/-- The text of a derivation is an expression by itself, of whatever kind of
phrase the derivation is. -/
theorem parse_of_derivation (d : Derivation p) {stack : Stack}
    (h : stack.Reaches maxDepth d.tree.nesting) :
    (Expr.parse (String.ofList d.text) maxDepth stack).value
      = .ok d.tree := by
  obtain ⟨e, htext, htree⟩ : ∃ e : Derivation .expression,
      e.text = d.text ∧ e.tree = d.tree := by
    cases p with
    | factor => exact ⟨.term (.factor d), rfl, rfl⟩
    | term => exact ⟨.term d, rfl, rfl⟩
    | expression => exact ⟨d, rfl, rfl⟩
  refine Expr.parse_eq_ok_iff.2
    ⟨⟨⟨[], by simp⟩, e, ⟨[], by simp⟩⟩, ?_, htree, h⟩
  show _ = (String.ofList d.text).toList
  simp [Sentence.text, htext]

/-- What is read at an offset is derived. -/
theorem readAt_sound
    (h : p.readAt maxDepth depth text start = some (stop, t)) :
    ∃ d : Derivation p, d.tree = t ∧ (slice text start stop).toList = d.text
      ∧ t.nesting ≤ (maxDepth - depth).toNat := by
  obtain ⟨hlt, -, hfound⟩ := readAt_eq_some_iff.1 h
  obtain ⟨d, hd, hahead, hnesting⟩ := Grammar.rule_sound _ p _ _ _ hfound
  rw [drop_eq_slice (Nat.le_of_lt hlt)] at hahead
  exact ⟨d, hd, List.append_cancel_right hahead, hnesting⟩

/-- In front of what is read another text may stand. -/
theorem readAt_moved
    (h : p.readAt maxDepth depth text start = some (stop, t))
    (front : String) :
    p.readAt maxDepth depth (front ++ slice text start text.length)
        front.length = some (front.length + (stop - start), t) := by
  obtain ⟨-, hstop, hfound⟩ := readAt_eq_some_iff.1 h
  have hslice : slice text start text.length
      = String.ofList (text.toList.drop start) := by
    rw [slice, ← String.length_toList, List.take_length]
  have hlength : (text.toList.drop start).length
      - (text.toList.drop stop).length = stop - start := by
    rw [List.length_drop, List.length_drop, String.length_toList]
    omega
  rw [hslice, readAt_front front hfound, hlength]

/-- In front of what is read another text may stand, and behind it the text
may end. -/
theorem readAt_cut
    (h : p.readAt maxDepth depth text start = some (stop, t))
    (front : String) :
    p.readAt maxDepth depth (front ++ slice text start stop) front.length
      = some (front.length + (stop - start), t) := by
  obtain ⟨-, hstop, -⟩ := readAt_eq_some_iff.1 h
  obtain ⟨d, rfl, hslice, hnesting⟩ := readAt_sound h
  have hread := readAt_front front (rule_cut d hnesting)
  rwa [← hslice, String.ofList_toList, length_slice hstop, List.length_nil,
    Nat.sub_zero] at hread

-- ========================================== where it begins and ends

/-- What is read begins with a character that is no blank. -/
theorem readAt_first
    (h : p.readAt maxDepth depth text start = some (stop, t)) :
    ∃ c, text.toList[start]? = some c ∧ isBlank c = false := by
  obtain ⟨hlt, -, -⟩ := readAt_eq_some_iff.1 h
  obtain ⟨d, -, hslice, -⟩ := readAt_sound h
  have hblank := d.notAhead_text (text.toList.drop stop)
  obtain ⟨c, tail, hct, -⟩ := d.ahead
  rw [hct] at hslice hblank
  refine ⟨c, ?_, notAhead_cons.1 hblank⟩
  rw [← List.head?_drop, drop_eq_slice (Nat.le_of_lt hlt), hslice]
  rfl

/-- What is read ends with a character that is no blank. -/
theorem readAt_last
    (h : p.readAt maxDepth depth text start = some (stop, t)) :
    ∃ c, text.toList[stop - 1]? = some c ∧ isBlank c = false := by
  obtain ⟨hlt, hstop, -⟩ := readAt_eq_some_iff.1 h
  obtain ⟨d, -, hslice, -⟩ := readAt_sound h
  obtain ⟨front, c, hlast, hc⟩ := d.last
  rw [hlast] at hslice
  have hlength : (slice text start stop).toList.length = stop - start :=
    length_slice hstop
  rw [hslice, List.length_append, List.length_singleton] at hlength
  have hoffset : stop - 1 = start + front.length := by omega
  refine ⟨c, ?_, hc⟩
  rw [hoffset, ← List.getElem?_drop, drop_eq_slice (Nat.le_of_lt hlt),
    hslice]
  simp

-- ============================================================= rounds

/-- What a kind of phrase is a list of: the operator and its operands. A
factor is no list. -/
def Phrase.operands? : Phrase → Option (String × Phrase)
  | factor => none
  | term => some ("AND", factor)
  | expression => some ("OR", term)

/-- One round of the loop over the operands of a list, from one offset to
another: the operator is read, and an operand behind it. -/
def Round (word : String) (operand : Phrase) (maxDepth depth : Int)
    (text : String) (start stop : Nat) : Prop :=
  ∃ behind next, (operator word).at text start = some (behind, ())
    ∧ operand.readAt maxDepth depth text behind = some (stop, next)

section Rounds

variable {word : String}

/-- A round comes to an offset behind the one it began at. -/
theorem Round.lt (h : Round word q maxDepth depth text start stop) :
    start < stop ∧ stop ≤ text.length := by
  obtain ⟨behind, next, hop, hnext⟩ := h
  obtain ⟨hbehind, -, -⟩ := (at_eq_some_iff (operator_splits word)).1 hop
  obtain ⟨hlt, hstop, -⟩ := readAt_eq_some_iff.1 hnext
  exact ⟨Nat.lt_trans hbehind hlt, hstop⟩

/-- The loop over the operands of a list comes to its end in rounds. -/
theorem joinOperands_rounds (word : String) (join : Expr → Expr → Expr)
    (q : Phrase) (maxDepth depth : Int) (text : String) (first : Expr)
    (start : Nat) (hstart : start ≤ text.length)
    (h : (Grammar.joinOperands word join (q.rule (maxDepth - depth).toNat)
      first (text.toList.drop start)).val = .found t rest) :
    ∃ stop, stop ≤ text.length ∧ rest = text.toList.drop stop
      ∧ Relation.ReflTransGen (Round word q maxDepth depth text)
        start stop := by
  refine Grammar.joinOperands_run word join (q.rule (maxDepth - depth).toNat)
    (motive := fun _ cs o => ∀ start t rest, start ≤ text.length →
      cs = text.toList.drop start → o = .found t rest →
      ∃ stop, stop ≤ text.length ∧ rest = text.toList.drop stop
        ∧ Relation.ReflTransGen (Round word q maxDepth depth text)
          start stop)
    ?_ ?_ ?_ first (text.toList.drop start) start t rest hstart rfl h
  · intro first cs _ start t rest hstart hcs ho
    cases ho
    exact ⟨start, hstart, hcs, .refl⟩
  · intro first cs ahead deep _ _ start t rest _ _ ho
    cases ho
  -- one round: the operator ends at `behind`, and the operand at `mid`
  · intro first cs ahead next left o hop hnext ih start t rest _ hcs ho
    subst hcs
    obtain ⟨behind, hbehind, -, rfl⟩ := exists_at (operator_splits word) hop
    obtain ⟨mid, hmid, hle, rfl⟩ :=
      exists_at (rule_splits q _) (Rule.recognizer_eq_some_iff.2 hnext)
    obtain ⟨stop, hstop, hrest, hrounds⟩ := ih mid t rest hle rfl ho
    exact ⟨stop, hstop, hrest, .head ⟨behind, next, hbehind, hmid⟩ hrounds⟩

/-- The rule for a list is the loop over its operands. -/
theorem Phrase.exists_join (h : p.operands? = some (word, q)) :
    ∃ join, ∀ levels,
      p.rule levels = Grammar.operands word join (q.rule levels) := by
  cases p with
  | factor => cases h
  | term => cases h; exact ⟨.and, fun _ => rfl⟩
  | expression => cases h; exact ⟨.or, fun _ => rfl⟩

/-- A list is read as its first operand and in rounds from there on. -/
theorem readAt_rounds (hlist : p.operands? = some (word, q))
    (h : p.readAt maxDepth depth text start = some (stop, t)) :
    ∃ mid first, q.readAt maxDepth depth text start = some (mid, first)
      ∧ Relation.ReflTransGen (Round word q maxDepth depth text)
        mid stop := by
  obtain ⟨join, hrule⟩ := Phrase.exists_join hlist
  obtain ⟨-, hstop, hfound⟩ := readAt_eq_some_iff.1 h
  rw [hrule, Grammar.operands_val] at hfound
  split at hfound
  case h_2 => cases hfound
  case h_3 => cases hfound
  case h_1 first behind hfirst =>
    obtain ⟨mid, hmid, hle, rfl⟩ :=
      exists_at (rule_splits q _) (Rule.recognizer_eq_some_iff.2 hfirst)
    obtain ⟨stop', hstop', hdrop, hrounds⟩ :=
      joinOperands_rounds word join q maxDepth depth text first mid hle hfound
    have hlength := congrArg List.length hdrop
    rw [List.length_drop, List.length_drop, String.length_toList] at hlength
    obtain rfl : stop = stop' := by omega
    exact ⟨mid, first, hmid, hrounds⟩

end Rounds

/-- What a rule reads at an offset of a text, however deep in parentheses,
is at least one character, begins and ends with no blank, and is read as the
same tree if the text in front of it is another one and if the text ends
behind it; and by itself it is an expression with that tree, for every
reading that may nest as deep as the tree does. A list is read as its first
operand and then in rounds, and each round comes to an offset behind the one
it began at. -/
theorem rules_local (p : Phrase) (maxDepth depth : Int) (text : String) :
    (∀ start stop t,
      p.readAt maxDepth depth text start = some (stop, t) →
      start < stop ∧ stop ≤ text.length
      ∧ (∃ c, text.toList[start]? = some c ∧ isBlank c = false)
      ∧ (∃ c, text.toList[stop - 1]? = some c ∧ isBlank c = false)
      ∧ (∀ front : String,
        p.readAt maxDepth depth (front ++ slice text start text.length)
          front.length = some (front.length + (stop - start), t))
      ∧ p.readAt maxDepth depth (slice text 0 stop) start = some (stop, t)
      ∧ (∀ front : String,
        p.readAt maxDepth depth (front ++ slice text start stop)
          front.length = some (front.length + (stop - start), t))
      ∧ t.nesting ≤ (maxDepth - depth).toNat
      ∧ (∀ (stack : Stack) (asked : Int), stack.Reaches asked t.nesting →
        (Expr.parse (slice text start stop) asked stack).value = .ok t)
      ∧ ∀ word q, p.operands? = some (word, q) →
        ∃ mid first, q.readAt maxDepth depth text start = some (mid, first)
          ∧ Relation.ReflTransGen (Round word q maxDepth depth text)
            mid stop)
    ∧ ∀ word q, p.operands? = some (word, q) →
      ∀ start stop, Round word q maxDepth depth text start stop →
        start < stop ∧ stop ≤ text.length := by
  refine ⟨fun start stop t h => ?_, fun word q _ start stop h => h.lt⟩
  obtain ⟨hlt, hstop, -⟩ := readAt_eq_some_iff.1 h
  obtain ⟨d, hd, hslice, hnesting⟩ := readAt_sound h
  refine ⟨hlt, hstop, readAt_first h, readAt_last h, readAt_moved h, ?_,
    readAt_cut h, hnesting, ?_, fun word q hlist => readAt_rounds hlist h⟩
  · have hcut := readAt_cut h (slice text 0 start)
    rw [slice_append (Nat.le_of_lt hlt), ← String.length_toList,
      length_slice (Nat.le_trans (Nat.le_of_lt hlt) hstop)] at hcut
    rwa [Nat.sub_zero, Nat.add_sub_cancel' (Nat.le_of_lt hlt)] at hcut
  · intro stack asked hasked
    -- the slice is the text of the derivation, so it is read by itself
    rw [← hd] at hasked ⊢
    have hread := parse_of_derivation d hasked
    rwa [← hslice, String.ofList_toList] at hread

/-- In the parentheses, which nothing closes, the rule looks at the exception
that is none and goes back to the license in front of it. -/
theorem rules_local_of_list :
    ∃ t, Phrase.expression.readAt 2 1 "(A and (B) or C with +" 1
        = some (15, t)
      ∧ Phrase.expression.readAt 2 1 "A and (B) or C" 0 = some (14, t)
      ∧ (Expr.parse "A and (B) or C").value = .ok t := by
  have hread : Phrase.expression.readAt 2 1 "(A and (B) or C with +" 1
      = some (15, .or (.and (.license ⟨"A", none, false⟩)
        (.parens (.license ⟨"B", none, false⟩)))
        (.license ⟨"C", none, false⟩)) := by decide +kernel
  have hslice : slice "(A and (B) or C with +" 1 15 = "A and (B) or C" := by
    decide
  obtain ⟨-, -, -, -, -, -, hcut, -, hparse, -⟩ :=
    (rules_local .expression 2 1 "(A and (B) or C with +").1 _ _ _ hread
  rw [hslice] at hcut hparse
  exact ⟨_, hread, hcut "", hparse {} defaultMaxDepth ⟨by decide, rfl⟩⟩

end LicenseExpr
