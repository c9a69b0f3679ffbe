/-
Readings under a depth limit, against readings that no depth limits.

A limit shows in a reading in one way: the reading ends at the first
parenthesis that opens on the level of the limit. Whether it gets there is
decided by what stands in front of that parenthesis, so it can be asked of a
reading without a limit, by putting a probe in place of the parenthesis and
of everything behind it.

What "without a limit" means does not depend on how far the limit is away:
two readings that are both allowed more levels than a text has parentheses
come to the same (`parseFreely`).
-/
import LicenseExpr.Proofs.Depth

namespace LicenseExpr

open Text

/-- A sentence nests no deeper than it has parentheses. -/
theorem Sentence.nesting_le_count (s : Sentence) :
    s.tree.nesting ≤ s.text.count '(' := by
  have hbody : s.body.text.count '(' ≤ s.text.count '(' := by
    rw [text, List.count_append, List.count_append]
    omega
  refine Nat.le_trans ((s.body.opensBelow_text _).1 ?_) hbody
  intro read more htext
  have hle := surplus_le_count read
  rw [htext, List.count_append, List.count_cons_self]
  omega

namespace Expr

variable {τ : Type} [Script τ] {text : τ} {maxDepth : Int} {stack : Stack}
  {levels : Nat} {t : Expr}

-- =============================================== too deep, as counted

/-- A reading ends at the first parenthesis on the level of its limit if the
grammar can make a sentence of what stands in front of it and a probe; and
it ends there only then. -/
theorem expression_eq_tooDeep_iff {cs ahead : List Char} :
    (Grammar.expression levels (skipBlanks cs)).val = .tooDeep ahead ↔
      ∃ read more, ahead = '(' :: more ∧ cs = read ++ ahead
        ∧ surplus read = levels ∧ OpensBelow levels read
        ∧ ∃ s : Sentence, s.text = read ++ probe levels := by
  constructor
  · intro hdeep
    obtain ⟨leading, body, rfl, hleading, -, hbody⟩ := exists_skipBlanks cs
    rw [hbody] at hdeep
    obtain ⟨read, more, hahead, rfl, hreach⟩ :=
      Grammar.expression_soundDeep levels _ _ hdeep
    have hsurplus := hreach.surplus
    have hplain := plain_of_isBlank hleading
    obtain ⟨⟨d, hd⟩, hbelow⟩ := hreach
    refine ⟨leading ++ read, more, hahead, by rw [List.append_assoc], ?_, ?_,
      ⟨⟨leading, hleading⟩, d, ⟨[], by simp⟩⟩, ?_⟩
    · rw [hplain.surplus_append, hsurplus]
    · rw [hplain.opensBelow_append]
      exact hbelow
    · simp [Sentence.text, hd]
  · intro h
    obtain ⟨read, more, rfl, rfl, hlevel, hbelow, s, hs⟩ := h
    -- the parenthesis of the probe opens in the expression, not in the blanks
    -- around it
    have hopen : s.leading.chars ++ (s.body.text ++ s.trailing.chars)
        = read ++ '(' :: ("X)".toList ++ List.replicate levels ')') := by
      rw [← List.append_assoc]
      exact hs
    have hplain := plain_of_isBlank s.leading.areBlank
    have htrailing := plain_of_isBlank s.trailing.areBlank
    obtain ⟨read', tail, rfl, hbody⟩ :=
      opening_between hplain.notMem htrailing.notMem hopen
    rw [hplain.opensBelow_append] at hbelow
    rw [hplain.surplus_append] at hlevel
    rw [List.append_assoc, skipBlanks_run s.leading.areBlank
      (Grammar.notAhead_opening s.body hbody more)]
    exact Grammar.rule_reports s.body levels read' tail hbody hbelow
      hlevel more

-- ============================================ readings without a limit

/-- There are no parentheses among the blanks that are skipped. -/
theorem count_skipBlanks_le (cs : List Char) :
    (skipBlanks cs).count '(' ≤ cs.count '(' :=
  (List.dropWhile_sublist isBlank).count_le '('

/-- Where nothing was too deep, the stack bears the reading. -/
theorem outcome_eq_of_ne
    (h : ∀ ahead, outcome text maxDepth stack ≠ .tooDeep ahead) :
    outcome text maxDepth stack
      = (Grammar.expression (stack.levels maxDepth)
          (skipBlanks (Script.chars text))).val :=
  ((outcome_eq_iff h).1 rfl).2.symm

/-- Two readings in which nothing was too deep come to the same. -/
theorem parse_value_eq {maxDepth' : Int} {stack' : Stack}
    (h : ∀ ahead, outcome text maxDepth stack ≠ .tooDeep ahead)
    (h' : ∀ ahead, outcome text maxDepth' stack' ≠ .tooDeep ahead) :
    (parse text maxDepth stack).value
      = (parse text maxDepth' stack').value := by
  have hout : outcome text maxDepth stack
      = outcome text maxDepth' stack' := by
    have heq := outcome_eq_of_ne h
    have heq' := outcome_eq_of_ne h'
    rw [heq] at h
    rw [heq'] at h'
    rw [heq, heq']
    exact Grammar.expression_eq h h'
  rw [parse_value, parse_value, hout]
  cases ho : outcome text maxDepth' stack' with
  | found t rest => rfl
  | absent => rfl
  | tooDeep ahead => exact absurd ho (h' ahead)

variable {frames : Int}

/-- Where as many levels may be opened as a text has parentheses, nothing is
too deep. -/
theorem ne_tooDeep_of_count
    (h : (Script.chars text).count '('
      ≤ Stack.levels { frames } maxDepth) (ahead : List Char) :
    outcome text maxDepth { frames } ≠ .tooDeep ahead := by
  rw [outcome_of_bears rfl]
  exact Grammar.expression_ne_tooDeep
    (Nat.le_trans (count_skipBlanks_le (Script.chars text)) h) ahead

/-- What reading a text comes to if no depth limits it: more levels may be
opened than it has parentheses. -/
def parseFreely (text : τ) : Except (ParseError τ) Expr :=
  let depth : Int := (Script.chars text).count '(' + 1
  (parse text depth { frames := 4 * depth + 200 }).value

/-- A depth that is asked for is borne if the stack goes as far. -/
theorem count_le_levels {n : Nat} {bound : Int}
    (hbound : (n : Int) < bound)
    (hframes : (n : Int) < Stack.depthLimit { frames }) :
    n ≤ Stack.levels { frames } bound := by
  have hlevels := Stack.levels_eq frames bound
  omega

/-- A stack can be as deep as is needed. -/
theorem lt_depthLimit (n : Nat) :
    (n : Int) < Stack.depthLimit { frames := 4 * ((n : Int) + 1) + 200 } := by
  show (n : Int) < max 1 ((4 * ((n : Int) + 1) + 200 - 200) / 4)
  omega

/-- How far the limit is away makes no difference. -/
theorem parse_eq_parseFreely {bound : Int}
    (hbound : ((Script.chars text).count '(' : Int) < bound)
    (hframes : ((Script.chars text).count '(' : Int)
      < Stack.depthLimit { frames }) :
    (parse text bound { frames }).value = parseFreely text :=
  parse_value_eq (ne_tooDeep_of_count (count_le_levels hbound hframes))
    (ne_tooDeep_of_count
      (count_le_levels (Int.lt_succ _) (lt_depthLimit _)))

/-- A reading without a limit succeeds exactly for the sentences. -/
theorem parseFreely_eq_ok_iff :
    parseFreely text = .ok t ↔
      ∃ s : Sentence, s.text = Script.chars text ∧ s.tree = t := by
  unfold parseFreely
  rw [parse_eq_ok_iff]
  constructor
  · intro h
    obtain ⟨s, htext, htree, -⟩ := h
    exact ⟨s, htext, htree⟩
  · intro h
    obtain ⟨s, htext, rfl⟩ := h
    refine ⟨s, htext, rfl, Stack.reaches_iff.2
      ⟨rfl, Nat.le_trans s.nesting_le_count ?_⟩⟩
    rw [htext]
    exact count_le_levels (Int.lt_succ _) (lt_depthLimit _)

-- ================================================= what the limit does

/-- A probe in place of the parenthesis at the offset `i` is read. -/
def ReachesOffset (text : τ) (levels i : Nat) : Prop :=
  ∃ t, parseFreely ((Script.points text).take i
    ++ (probe levels).map CodePoint.ofChar : CodePoints) = .ok t

/-- To a reading, a probe in the place of the rest is one in the place of the
rest of its characters. -/
theorem chars_probed (text : τ) (levels i : Nat) :
    Script.chars ((Script.points text).take i
        ++ (probe levels).map CodePoint.ofChar : CodePoints)
      = (Script.chars text).take i ++ probe levels := by
  rw [← chars_take]
  show List.map _ _ = List.map _ _ ++ _
  simp [List.map_map, Function.comp_def]

/-- A reading ends at a parenthesis exactly if the first one on the level of
the limit is reached. -/
theorem tooDeep_offset_iff {i : Nat} :
    (∃ ahead, (Grammar.expression levels
        (skipBlanks (Script.chars text))).val
        = .tooDeep ahead ∧ offset text ahead = i) ↔
      FirstOpensAt levels (Script.chars text) i
        ∧ ReachesOffset text levels i := by
  simp only [firstOpensAt_iff (Int.natCast_nonneg levels), ReachesOffset,
    parseFreely_eq_ok_iff, chars_probed]
  constructor
  · intro h
    obtain ⟨ahead, hdeep, rfl⟩ := h
    obtain ⟨read, more, rfl, htext, hlevel, hbelow, s, hs⟩ :=
      expression_eq_tooDeep_iff.1 hdeep
    have hoffset : offset text ('(' :: more) = read.length := by
      rw [offset, htext, List.length_append, Nat.add_sub_cancel]
    rw [hoffset]
    refine ⟨⟨read, more, htext, rfl, hlevel, hbelow⟩, s.tree, s, ?_, rfl⟩
    rw [hs, htext, List.take_left]
  · intro h
    obtain ⟨⟨read, more, htext, rfl, hlevel, hbelow⟩, t, s, hs, -⟩ := h
    rw [htext, List.take_left] at hs
    refine ⟨'(' :: more, expression_eq_tooDeep_iff.2
      ⟨read, more, rfl, htext, hlevel, hbelow, s, hs⟩, ?_⟩
    rw [offset, htext, List.length_append, Nat.add_sub_cancel]

/-- A reading that the stack bears fails at the parenthesis that is too
deep, and reports it. -/
theorem parse_tooDeep {ahead : List Char}
    (h : outcome text maxDepth { frames } = .tooDeep ahead) :
    (parse text maxDepth { frames }).value
        = .error ⟨text, offset text ahead⟩
      ∧ ∃ depth, .depthExceeded text (offset text ahead) depth
        ∈ (parse text maxDepth { frames }).events := by
  have hending : ending text maxDepth { frames } (.tooDeep ahead)
      = (.depthExceeded text (offset text ahead)
          (min maxDepth (Stack.readingLimit { frames })),
        .error ⟨text, offset text ahead⟩) := rfl
  rw [parse_eq, h, hending]
  exact ⟨rfl, _, List.mem_append_right _ (List.mem_singleton_self _)⟩

/-- A reading that ends at no parenthesis is one without a limit. -/
theorem parse_eq_parseFreely_of_ne
    (h : ∀ ahead, outcome text maxDepth stack ≠ .tooDeep ahead) :
    (parse text maxDepth stack).value = parseFreely text :=
  parse_value_eq h (ne_tooDeep_of_count
    (count_le_levels (Int.lt_succ _) (lt_depthLimit _)))

variable {deeper : Int}

/-- Asking for more does not change a tree. -/
theorem parse_ok_of_le (hle : maxDepth ≤ deeper)
    (h : (parse text maxDepth { frames }).value = .ok t) :
    (parse text deeper { frames }).value = .ok t := by
  obtain ⟨s, htext, htree, hreaches⟩ := parse_eq_ok_iff.1 h
  exact parse_eq_ok_iff.2 ⟨s, htext, htree, hreaches.mono hle⟩

/-- Asking for more changes nothing where no depth was exceeded. -/
theorem parse_eq_of_le (hle : maxDepth ≤ deeper)
    (h : ∀ position depth, .depthExceeded text position depth
      ∉ (parse text maxDepth { frames }).events) :
    (parse text deeper { frames }).value
      = (parse text maxDepth { frames }).value := by
  have hnot : ∀ ahead, outcome text maxDepth { frames } ≠ .tooDeep ahead := by
    intro ahead hdeep
    obtain ⟨-, depth, hevent⟩ := parse_tooDeep hdeep
    exact h _ depth hevent
  refine parse_value_eq (fun ahead => ?_) hnot
  rw [outcome_of_bears rfl] at hnot ⊢
  rw [Grammar.expression_extends (Stack.levels_mono frames hle) _ hnot]
  exact hnot ahead

/-- What is read without a limit is read under one exactly if it does not
nest too deep. -/
theorem parse_ok_iff_nesting (h : parseFreely text = .ok t) :
    (parse text maxDepth stack).value = .ok t
      ↔ stack.Reaches maxDepth t.nesting := by
  obtain ⟨s, htext, htree⟩ := parseFreely_eq_ok_iff.1 h
  rw [parse_eq_ok_iff]
  constructor
  · intro h
    obtain ⟨-, -, -, hreaches⟩ := h
    exact hreaches
  · intro hreaches
    exact ⟨s, htext, htree, hreaches⟩

end Expr

/-- The depth limit is exact and changes nothing else. Where the first
parenthesis that opens on the level of the limit is reached, the reading
fails there; everywhere else it is the reading without a limit. So what is
read without a limit is refused only if it nests too deep, and asking for
more changes neither a tree nor a failure for another reason. -/
theorem parse_depth_limit {τ : Type} [Script τ] (text : τ)
    (maxDepth frames : Int) :
    let k := (max 0 (min maxDepth (Stack.depthLimit { frames }))).toNat
    let outcome := (Expr.parse text maxDepth { frames }).value
    (∀ bound frames' : Int, ((Script.chars text).count '(' : Int) < bound →
      ((Script.chars text).count '(' : Int)
        < Stack.depthLimit { frames := frames' } →
      (Expr.parse text bound { frames := frames' }).value
        = Expr.parseFreely text)
    ∧ (∀ i, FirstOpensAt k (Script.chars text) i →
      Expr.ReachesOffset text k i → outcome = .error ⟨text, i⟩)
    ∧ ((∀ i, FirstOpensAt k (Script.chars text) i →
        ¬ Expr.ReachesOffset text k i) →
      outcome = Expr.parseFreely text)
    ∧ (∀ t, Expr.parseFreely text = .ok t →
      (outcome = .ok t ↔ t.nesting ≤ k))
    ∧ ∀ deeper, maxDepth ≤ deeper →
      (∀ t, outcome = .ok t →
        (Expr.parse text deeper { frames }).value = .ok t)
      ∧ ((∀ position depth, .depthExceeded text position depth
          ∉ (Expr.parse text maxDepth { frames }).events) →
        (Expr.parse text deeper { frames }).value = outcome) := by
  have hlevels := Stack.levels_eq frames maxDepth
  dsimp only
  rw [← hlevels, Int.toNat_natCast]
  refine ⟨fun bound frames' => Expr.parse_eq_parseFreely, ?_, ?_,
    fun t hfree => ?_,
    fun deeper hle => ⟨fun t h => Expr.parse_ok_of_le hle h,
      fun h => Expr.parse_eq_of_le hle h⟩⟩
  · intro i hfirst hreach
    obtain ⟨ahead, hdeep, rfl⟩ := Expr.tooDeep_offset_iff.2 ⟨hfirst, hreach⟩
    -- `frames` puts no limit of its own, so the descent begins
    have hout : Expr.outcome text maxDepth { frames } = .tooDeep ahead :=
      hdeep
    exact (Expr.parse_tooDeep hout).1
  · intro hnone
    refine Expr.parse_eq_parseFreely_of_ne fun ahead hdeep => ?_
    obtain ⟨hfirst, hreach⟩ :=
      Expr.tooDeep_offset_iff.1 ⟨ahead, hdeep, rfl⟩
    exact hnone _ hfirst hreach
  · rw [Expr.parse_ok_iff_nesting hfree, Stack.reaches_iff]
    exact and_iff_right rfl

/-- Two pairs of parentheses, of which one level may be opened: the reading
fails at the second pair, and without a limit it succeeds. -/
theorem parse_depth_limit_of_two :
    (Expr.parse "((MIT))" 1 {}).value = .error ⟨"((MIT))", 1⟩
    ∧ (Expr.parse "((MIT))" 9 {}).value = Expr.parseFreely "((MIT))" := by
  constructor
  · exact (parse_depth_limit "((MIT))" 1 1000).2.1 1 (by decide)
      ⟨.parens (.parens (.license ⟨"X", none, false⟩)), by decide +kernel⟩
  · exact (parse_depth_limit "((MIT))" 9 1000).1 9 1000 (by decide)
      (by decide)

end LicenseExpr
