/-
Where a reading comes to that fails.

A text that is no expression may begin with one. The reading stops behind
the longest beginning that is an expression and the blanks after it, or, if
there is no such beginning, at the first character that is not blank.

# Boundaries

Only beginnings count that do not cut a word: between the beginning and the
rest of the text stand no two identifier characters (`IsBoundary`). A word
that is cut may be an expression where the whole word is none: `LicenseRef`
may follow WITH, and `LicenseRef-x` may not.

# Nothing is cut, nothing stops short

Two inductions carry this. Over the rules: what a rule leaves, it leaves at
a boundary (`rule_leaves`). Over a derivation that ends at a boundary: a
rule in front of its text comes to the end of it at least, whatever stands
behind (`rule_passes`). The rule may read on there, as another word of a
list or as a longer license, but an operator whose operand cannot be read
is given back, so nothing that stands behind makes it read less.
-/
import LicenseExpr.Proofs.Acceptance
import LicenseExpr.Proofs.Longest

namespace LicenseExpr

open Text Recognizer

-- ========================================================== boundaries

/-- The last character of `read` and the first one of `rest` are not both
identifier characters. -/
def Parted (read rest : List Char) : Prop :=
  ∀ c ∈ read.getLast?, isIdChar c = true → NotAhead isIdChar rest

/-- At the offset `q` the text ends, or the characters on its two sides are
not both identifier characters. -/
def IsBoundary (cs : List Char) (q : Nat) : Prop :=
  q = cs.length ∨ q < cs.length ∧ Parted (cs.take q) (cs.drop q)

section Parted

variable {read run rest : List Char}

/-- Where no identifier character is ahead, anything may stand in front. -/
theorem parted_of_notAhead (h : NotAhead isIdChar rest) :
    Parted read rest :=
  fun _ _ _ => h

/-- What counts of the text in front is its last character. -/
theorem parted_concat {last : Char} :
    Parted (read ++ [last]) rest
      ↔ (isIdChar last = true → NotAhead isIdChar rest) := by
  rw [Parted, List.getLast?_concat]
  simp

/-- What stands in front of the last part of a text makes no difference. -/
theorem parted_append (hne : run ≠ []) :
    Parted (read ++ run) rest ↔ Parted run rest := by
  rcases List.eq_nil_or_concat run with rfl | ⟨front, last, rfl⟩
  · exact absurd rfl hne
  · rw [List.concat_eq_append, ← List.append_assoc, parted_concat,
      parted_concat]

/-- Behind a run of identifier characters a boundary is where it ends. -/
theorem Parted.notAhead (h : Parted run rest) (hne : run ≠ [])
    (hrun : ∀ c ∈ run, isIdChar c = true) : NotAhead isIdChar rest := by
  rcases List.eq_nil_or_concat run with rfl | ⟨front, last, rfl⟩
  · exact absurd rfl hne
  · rw [List.concat_eq_append] at h hrun
    exact parted_concat.1 h (hrun last (by simp))

/-- A text is cut in two at a boundary if the parts are parted. -/
theorem isBoundary_append (h : Parted read rest) :
    IsBoundary (read ++ rest) read.length := by
  cases rest with
  | nil => exact Or.inl (by rw [List.append_nil])
  | cons c rest =>
      refine Or.inr ⟨by simp, ?_⟩
      rwa [List.take_left, List.drop_left]

/-- At a boundary a text is parted. -/
theorem IsBoundary.parted {cs : List Char} {q : Nat}
    (h : IsBoundary cs q) : Parted (cs.take q) (cs.drop q) := by
  rcases h with rfl | ⟨-, h⟩
  · rw [List.drop_length]
    exact parted_of_notAhead notAhead_nil
  · exact h

end Parted

-- ================================================ nothing is cut

/-- Of the text `cs`, at least one character is read and `rest` is left at a
boundary. -/
def Leaves (cs rest : List Char) : Prop :=
  ∃ read last, cs = read ++ last :: rest
    ∧ (isIdChar last = true → NotAhead isIdChar rest)

section Leaves

variable {cs rest : List Char}

/-- What stands in front of what is read makes no difference. -/
theorem Leaves.behind (h : Leaves cs rest) (front : List Char) :
    Leaves (front ++ cs) rest := by
  obtain ⟨read, last, rfl, hlast⟩ := h
  exact ⟨front ++ read, last, by rw [List.append_assoc], hlast⟩

theorem Leaves.trans {between : List Char} (h : Leaves cs between)
    (h' : Leaves between rest) : Leaves cs rest := by
  obtain ⟨read, last, rfl, -⟩ := h
  have hmore := h'.behind (read ++ [last])
  rwa [List.append_assoc] at hmore

/-- The end of a run is a boundary. -/
theorem leaves_of_notAhead {read : List Char} (h : cs = read ++ rest)
    (hlt : rest.length < cs.length) (hrest : NotAhead isIdChar rest) :
    Leaves cs rest := by
  rcases List.eq_nil_or_concat read with rfl | ⟨front, last, rfl⟩
  · rw [h, List.nil_append] at hlt
    exact absurd hlt (Nat.lt_irrefl _)
  · refine ⟨front, last, ?_, fun _ => hrest⟩
    rw [h, List.concat_eq_append, List.append_assoc]
    rfl

/-- Blanks behind what is read may be read too. -/
theorem Leaves.blanks {gap : List Char} (h : Leaves cs (gap ++ rest))
    (hgap : ∀ c ∈ gap, isBlank c = true) : Leaves cs rest := by
  rcases List.eq_nil_or_concat gap with rfl | ⟨front, last, rfl⟩
  · exact h
  · rw [List.concat_eq_append] at h hgap
    have hlast := isIdChar_of_isBlank (hgap last (by simp))
    obtain ⟨read, c, rfl, -⟩ := h
    refine ⟨read ++ c :: front, last, by simp, fun h => ?_⟩
    rw [hlast] at h
    cases h

/-- A license ends at a boundary: its last character is a `+`, or its run is
over. -/
theorem license_leaves {l : License} (h : license cs = some (l, rest)) :
    Leaves cs rest := by
  have hlt := license_consumes h
  simp only [license] at h
  split at h
  · rename_i document id behind hr
    cases h
    obtain ⟨hcs, -, -, hrest⟩ := reference_sound hr
    exact leaves_of_notAhead hcs hlt hrest
  · simp only [Option.map_eq_some_iff, Prod.mk.injEq, Prod.exists] at h
    obtain ⟨id, behind, hid, rfl, rfl⟩ := h
    obtain ⟨stem, -, ⟨rfl, rfl⟩ | ⟨rfl, hcs, hrest, -⟩⟩ :=
      bareId_eq_some_iff.1 hid
    · exact ⟨stem.toList, '+', rfl, fun h => by cases h⟩
    · exact leaves_of_notAhead hcs hlt hrest

/-- So does an exception. -/
theorem exception_leaves {name : String}
    (h : exception cs = some (name, rest)) : Leaves cs rest := by
  obtain ⟨s, hcs, -, hrest⟩ := exception_eq_some_iff.1 h
  exact leaves_of_notAhead hcs (exception_consumes h) hrest

end Leaves

/-- What the rule leaves behind what it finds, it leaves at a boundary. -/
def Rule.Leaves (rule : Rule) : Prop :=
  ∀ cs t rest, (rule cs).val = .found t rest →
    LicenseExpr.Leaves cs rest

namespace Grammar

variable {operand bracket : Rule} {word : String}
  {join : Expr → Expr → Expr}

/-- What a list leaves, its last operand has left. -/
theorem operands_leaves (hoperand : operand.Leaves) :
    (operands word join operand : Rule).Leaves := by
  intro cs t rest h
  rw [operands_val] at h
  split at h
  case h_2 => cases h
  case h_3 => cases h
  case h_1 only behind honly =>
    have hfirst := hoperand _ _ _ honly
    have key := joinOperands_run word join operand
      (motive := fun _ ahead o => ∀ t rest, o = .found t rest →
        rest = ahead ∨ LicenseExpr.Leaves ahead rest)
      ?_ ?_ ?_ only behind t rest h
    · rcases key with rfl | hbehind
      · exact hfirst
      · exact hfirst.trans hbehind
    · intro first ahead _ t rest h
      cases h
      exact Or.inl rfl
    · intro first ahead behind deep _ _ t rest h
      cases h
    · intro first ahead behind next rest o hop hnext ih t rest' ho
      obtain ⟨s, rfl, -⟩ := operator_sound hop
      have hread := (hoperand _ _ _ hnext).behind s.text
      rcases ih t rest' ho with rfl | hbehind
      · exact Or.inr hread
      · exact Or.inr (hread.trans hbehind)

/-- A factor ends where its license or its exception does, or its parenthesis.
-/
theorem factorOf_leaves (hbracket : bracket.Leaves) :
    (factorOf bracket).Leaves := by
  intro cs t rest h
  rw [factorOf_val] at h
  split at h
  case h_2 => exact hbracket _ _ _ h
  case h_1 expr behind hlicensed =>
    cases h
    simp only [licensed] at hlicensed
    split at hlicensed
    case h_1 => cases hlicensed
    case h_2 l behind hl =>
      split at hlicensed
      case h_1 name behind' he =>
        cases hlicensed
        exact (license_leaves hl).trans (exception_leaves he)
      case h_2 =>
        cases hlicensed
        exact license_leaves hl

/-- A parenthesis that closes is no identifier character. -/
theorem parenthesized_leaves {inside : Rule} (hinside : inside.Leaves) :
    (parenthesized inside).Leaves := by
  intro cs t rest h
  rw [parenthesized_val] at h
  split at h
  case h_2 => cases h
  case h_1 ahead =>
    obtain ⟨opening, start, rfl, -, -, hstart⟩ := exists_skipBlanks ahead
    rw [hstart] at h
    split at h
    case h_2 hnone => exact absurd h (hnone t rest)
    case h_1 inner behind hinner =>
      obtain ⟨closing, end', rfl, -, -, hend⟩ := exists_skipBlanks behind
      rw [hend] at h
      split at h
      case h_2 => cases h
      case h_1 rest' =>
        cases h
        have hclose : LicenseExpr.Leaves (closing ++ ')' :: rest) rest :=
          ⟨closing, ')', rfl, fun h => by cases h⟩
        exact ((hinside _ _ _ hinner).behind ('(' :: opening)).trans hclose

/-- And so on every level. -/
theorem group_leaves (levels : Nat) : Rule.Leaves (group levels) := by
  induction levels with
  | zero =>
      intro cs t rest h
      simp only [group, noParenthesis] at h
      split at h <;> cases h
  | succ levels ih =>
      exact parenthesized_leaves
        (operands_leaves (operands_leaves (factorOf_leaves ih)))

/-- What a rule leaves, it leaves at a boundary. -/
theorem rule_leaves (levels : Nat) (p : Phrase) :
    (p.rule levels).Leaves := by
  have hfactor := factorOf_leaves (group_leaves levels)
  cases p with
  | factor => exact hfactor
  | term => exact operands_leaves hfactor
  | expression => exact operands_leaves (operands_leaves hfactor)

end Grammar

-- ============================================== nothing stops short

/-- What is found leaves no more than `rest`, or a parenthesis is too
deep. -/
def Outcome.Passes (rest : List Char) : Outcome → Prop
  | found _ rest' => rest'.length ≤ rest.length
  | absent => False
  | tooDeep _ => True

theorem Outcome.Passes.mono {rest rest' : List Char}
    (hle : rest'.length ≤ rest.length) :
    ∀ {o : Outcome}, o.Passes rest' → o.Passes rest
  | found _ _, h => Nat.le_trans h hle
  | tooDeep _, _ => trivial

namespace Grammar

variable {p q : Phrase} {levels : Nat} {operand : Rule} {word : String}
  {join : Expr → Expr → Expr} {cs ahead rest : List Char}

/-- In front of the text of a license a factor is read that goes as far. -/
theorem licensed_passes {l : License} (hl : l.WellFormed)
    (rest : List Char) :
    ∃ t rest', licensed (l.text.toList ++ rest) = some (t, rest')
      ∧ rest'.length ≤ rest.length := by
  obtain ⟨l', behind, hlicense, hle⟩ := license_reaches hl rest
  cases he : exception behind with
  | none =>
      exact ⟨.license l', behind, by simp only [licensed, hlicense, he], hle⟩
  | some found =>
      obtain ⟨name, rest'⟩ := found
      exact ⟨.withException l' name, rest',
        by simp only [licensed, hlicense, he],
        Nat.le_trans (Nat.le_of_lt (exception_consumes he)) hle⟩

/-- The loop over the operands of a list never goes back. -/
theorem joinOperands_passes (word : String) (join : Expr → Expr → Expr)
    (operand : Rule) (first : Expr) (cs : List Char) :
    (joinOperands word join operand first cs).val.Passes cs := by
  refine joinOperands_run word join operand
    (motive := fun _ cs o => o.Passes cs) ?_ ?_ ?_ first cs
  · intro _ cs _
    exact Nat.le_refl _
  · intro _ _ _ _ _ _
    trivial
  · intro _ cs ahead next rest o hop hnext ih
    refine ih.mono ?_
    have hahead : ahead.length < cs.length := operator_consumes word hop
    have hrest : rest.length < ahead.length := by
      have h := (operand ahead).property
      rw [hnext] at h
      exact h
    omega

/-- A list goes on at least as far as its first operand. -/
theorem operands_passes (h : (operand cs).val.Passes rest) :
    (operands word join operand cs).val.Passes rest := by
  rw [operands_val]
  split
  case h_1 first behind hfirst =>
    rw [hfirst] at h
    exact (joinOperands_passes word join operand first behind).mono h
  case h_2 habsent => rw [habsent] at h; exact h
  case h_3 => trivial

/-- A list that has been joined but for its last operand goes on at least
as far as the last operand. -/
theorem operands_passes_more (chain : Chain p q word join)
    {left : Derivation q} {s : Spelling word} {right : Derivation p}
    (hleft : (operands word join operand
        (left.text ++ (s.text ++ (right.text ++ rest)))).val
      = (joinOperands word join operand left.tree
        (s.text ++ (right.text ++ rest))).val)
    (hright : (operand (right.text ++ rest)).val.Passes rest) :
    (operands word join operand
      ((chain.more left s right).text ++ rest)).val.Passes rest := by
  have hop : operator word (s.text ++ (right.text ++ rest))
      = some ((), right.text ++ rest) :=
    operator_complete chain.isOperatorWord s (right.notAhead_text rest)
  rw [chain.text_more, List.append_assoc, List.append_assoc, hleft]
  cases hnext : (operand (right.text ++ rest)).val with
  | found next behind =>
      rw [hnext] at hright
      rw [joinOperands_more hop hnext]
      exact (joinOperands_passes word join operand _ behind).mono hright
  | absent => rw [hnext] at hright; exact hright.elim
  | tooDeep deep => rw [joinOperands_deep hop hnext]; trivial

/-- In front of the text of a derivation that ends at a boundary, a rule
comes at least to the end of it. -/
theorem rule_passes (d : Derivation p) (hnesting : d.tree.nesting ≤ levels)
    (hrest : Parted d.text rest) :
    (p.rule levels (d.text ++ rest)).val.Passes rest := by
  induction d generalizing rest with
  | license l hl =>
      obtain ⟨t, rest', hfound, hle⟩ := licensed_passes hl rest
      rw [Phrase.rule, factor, factorOf_val, Derivation.text, hfound]
      exact hle
  | withException l hl s name hname =>
      rw [Derivation.text, parted_append hname.1.1] at hrest
      rw [Phrase.rule, factor, factorOf_val, Derivation.text,
        licensed_withException hl s hname
          (hrest.notAhead hname.1.1 hname.1.2)]
      exact Nat.le_refl _
  | parens opening inner closing =>
      cases levels with
      | zero => exact absurd hnesting (Nat.not_succ_le_zero _)
      | succ levels =>
          have hinner := expression_text inner
            (Nat.le_of_succ_le_succ hnesting)
            (closed_of_closing rest closing.areBlank)
          rw [Phrase.rule, factor_parens opening closing inner hinner]
          exact Nat.le_refl _
  | factor only ih => exact operands_passes (ih hnesting hrest)
  | and left s right ihl ihr =>
      obtain ⟨hleft, hright⟩ := Nat.max_le.1 hnesting
      refine operands_passes_more termChain ?_ (ihr hright ?_)
      · exact rule_text left hleft
          (s.borders_and (right.notAhead_text rest))
      · rwa [Derivation.text, parted_append right.text_ne_nil] at hrest
  | term only ih => exact operands_passes (ih hnesting hrest)
  | or left s right ihl ihr =>
      obtain ⟨hleft, hright⟩ := Nat.max_le.1 hnesting
      refine operands_passes_more expressionChain ?_ (ihr hright ?_)
      · exact rule_text left hleft
          (s.borders_or (right.notAhead_text rest))
      · rwa [Derivation.text, parted_append right.text_ne_nil] at hrest

end Grammar

-- ==================================================== failed readings

namespace Expr

variable {τ : Type} [Script τ] {text : τ} {maxDepth : Int} {stack : Stack}
  {error : ParseError τ}

/-- The beginnings of a text that are expressions and do not cut a word, by
their lengths. -/
def readableUpTo (text : τ) (maxDepth : Int) (stack : Stack) : Set Nat :=
  { q | IsBoundary (Script.chars text) q
    ∧ ∃ t, (parse ((Script.points text).take q : CodePoints) maxDepth
      stack).value = .ok t }

/-- The offset of the first character that is not blank; where there is
none, of the end. -/
def firstNonBlank (text : τ) : Nat :=
  (Script.chars text).findIdx fun c => !isBlank c

/-- The blanks at the front end at the first character that is none. -/
theorem offset_skipBlanks :
    offset text (skipBlanks (Script.chars text)) = firstNonBlank text := by
  have hle : firstNonBlank text ≤ (Script.chars text).length :=
    List.findIdx_le_length
  rw [offset, skipBlanks, List.dropWhile_eq_drop_findIdx_not,
    List.length_drop]
  show (Script.chars text).length
    - ((Script.chars text).length - firstNonBlank text) = _
  omega

/-- The ending of a reading is reported. -/
theorem ending_mem_events (text : τ) (maxDepth : Int) (stack : Stack) :
    (ending text maxDepth stack (outcome text maxDepth stack)).1
      ∈ (parse text maxDepth stack).events := by
  rw [parse_eq]
  exact List.mem_append_right _ (List.mem_singleton_self _)

/-- A reading that fails for another reason than its depth has either read
something, and characters that are not blank are left, or found nothing. -/
theorem parse_error_cases
    (h : (parse text maxDepth stack).value = .error error)
    (hdepth : ∀ position depth, .depthExceeded text position depth
      ∉ (parse text maxDepth stack).events)
    (hstack : ∀ depth, .stackExhausted text depth
      ∉ (parse text maxDepth stack).events) :
    (∃ t rest, outcome text maxDepth stack = .found t rest
        ∧ skipBlanks rest ≠ []
        ∧ error = ⟨text, offset text (skipBlanks rest)⟩)
      ∨ outcome text maxDepth stack = .absent
        ∧ error = ⟨text, firstNonBlank text⟩ := by
  have hlast := ending_mem_events text maxDepth stack
  rw [parse_value] at h
  cases hout : outcome text maxDepth stack with
  | found t rest =>
      rw [hout, ending] at h
      split at h
      case h_1 => cases h
      case h_2 hne =>
        cases h
        exact Or.inl ⟨t, rest, rfl, hne, rfl⟩
  | absent =>
      rw [hout, ending, offset_skipBlanks] at h
      cases h
      exact Or.inr ⟨rfl, rfl⟩
  | tooDeep ahead =>
      rw [hout, ending] at hlast
      split at hlast
      case isTrue => exact absurd hlast (hdepth _ _)
      case isFalse => exact absurd hlast (hstack _)

/-- A text of which a beginning is an expression that does not cut a word is
read to the end of the expression at least. -/
theorem passes_of_readable {q : Nat}
    (hq : q ∈ readableUpTo text maxDepth stack) :
    ∃ read gap, (∀ c ∈ gap, isBlank c = true)
      ∧ skipBlanks (Script.chars text)
        = read ++ (gap ++ (Script.chars text).drop q)
      ∧ (outcome text maxDepth stack).Passes
          (gap ++ (Script.chars text).drop q) := by
  obtain ⟨hboundary, t, hread⟩ := hq
  obtain ⟨s, hs, rfl, hreaches⟩ := parse_eq_ok_iff.1 hread
  obtain ⟨hbears, hnesting⟩ := Stack.reaches_iff.1 hreaches
  rw [chars_take] at hs
  have htext : Script.chars text = s.leading.chars
      ++ (s.body.text ++ (s.trailing.chars
        ++ (Script.chars text).drop q)) := by
    conv => lhs; rw [← List.take_append_drop q (Script.chars text), ← hs]
    simp only [Sentence.text, List.append_assoc]
  have hbody := s.body.skipBlanks_text s.leading
    (s.trailing.chars ++ (Script.chars text).drop q)
  rw [← htext] at hbody
  refine ⟨s.body.text, s.trailing.chars, s.trailing.areBlank, hbody, ?_⟩
  rw [outcome_of_bears hbears, hbody]
  refine Grammar.rule_passes (p := .expression) s.body hnesting ?_
  -- the beginning ends in blanks, or with the expression itself
  cases hgap : s.trailing.chars with
  | nil =>
      have hparted := hboundary.parted
      rw [← hs, Sentence.text, hgap, List.append_nil,
        parted_append s.body.text_ne_nil] at hparted
      exact hparted
  | cons c gap =>
      have hc := s.trailing.areBlank c (by rw [hgap]; simp)
      exact parted_of_notAhead (notAhead_cons.2 (isIdChar_of_isBlank hc))

/-- Where nothing is found, no beginning is an expression. -/
theorem readableUpTo_eq_empty
    (h : outcome text maxDepth stack = .absent) :
    readableUpTo text maxDepth stack = ∅ := by
  refine Set.eq_empty_iff_forall_notMem.2 fun q hq => ?_
  obtain ⟨_, _, _, _, hpasses⟩ := passes_of_readable hq
  rw [h] at hpasses
  exact hpasses

/-- Blanks aside, what is left behind a beginning of a text is no less where
the beginning is shorter. -/
theorem length_skipBlanks_le_of_suffix {rest gap more : List Char}
    (h : rest <:+ gap ++ more) (hgap : ∀ c ∈ gap, isBlank c = true) :
    (skipBlanks rest).length ≤ more.length := by
  obtain ⟨front, h⟩ := h
  rcases List.append_eq_append_iff.1 h with
    ⟨gap', rfl, rfl⟩ | ⟨front', -, rfl⟩
  · rw [skipBlanks, List.dropWhile_append_of_pos fun c hc =>
      hgap c (List.mem_append_right front hc)]
    exact length_skipBlanks_le more
  · have hle := length_skipBlanks_le rest
    rw [List.length_append]
    omega

/-- Where something is found, the blanks behind it end the longest beginning
that is an expression. -/
theorem isGreatest_offset {t : Expr} {rest : List Char}
    (h : outcome text maxDepth stack = .found t rest) :
    IsGreatest (readableUpTo text maxDepth stack)
      (offset text (skipBlanks rest)) := by
  obtain ⟨hbears, hfound⟩ := outcome_eq_found_iff.1 h
  obtain ⟨leading, start, htext, hleading, -, hstart⟩ :=
    exists_skipBlanks (Script.chars text)
  obtain ⟨gap, tail, rfl, hgap, -, htail⟩ := exists_skipBlanks rest
  obtain ⟨d, rfl, hd, hnesting⟩ :=
    Grammar.rule_sound _ .expression _ _ _ hfound
  rw [htail]
  constructor
  · have hleaves :=
      (Grammar.rule_leaves _ .expression _ _ _ hfound).blanks hgap
    have hread := hleaves.behind leading
    rw [hstart, ← htext] at hread
    obtain ⟨read, last, hcs, hlast⟩ := hread
    have hsplit : Script.chars text = (read ++ [last]) ++ tail := by
      rw [hcs, List.append_assoc]
      rfl
    have hoffset : offset text tail = (read ++ [last]).length := by
      rw [offset, hsplit, List.length_append, Nat.add_sub_cancel]
    rw [hoffset]
    refine ⟨?_, d.tree, ?_⟩
    · rw [hsplit]
      exact isBoundary_append (parted_concat.2 hlast)
    · refine parse_eq_ok_iff.2
        ⟨⟨⟨leading, hleading⟩, d, ⟨gap, hgap⟩⟩, ?_, rfl,
          Stack.reaches_iff.2 ⟨hbears, hnesting⟩⟩
      rw [chars_take, hsplit, List.take_left]
      refine List.append_cancel_right (?_ : _ ++ tail = _ ++ tail)
      rw [← hsplit, htext, ← hstart, hd]
      simp [Sentence.text]
  · intro q hq
    obtain ⟨read, gap', hgap', hstart', hpasses⟩ := passes_of_readable hq
    rw [h] at hpasses
    -- both are ends of the text, and the rule left the shorter one
    have hsuffix : gap ++ tail <:+ gap' ++ (Script.chars text).drop q :=
      List.suffix_of_suffix_length_le ⟨d.text, hd.symm⟩
        ⟨read, hstart'.symm⟩ hpasses
    have hle := length_skipBlanks_le_of_suffix hsuffix hgap'
    rw [htail, List.length_drop] at hle
    have hq : q ≤ (Script.chars text).length := by
      rcases hq.1 with rfl | ⟨hlt, -⟩ <;> omega
    rw [offset]
    omega

/-- Where something is found and the rest is not all blank, the offset
behind the blanks is that of a character. -/
theorem getElem?_offset {t : Expr} {rest : List Char}
    (h : outcome text maxDepth stack = .found t rest)
    (hne : skipBlanks rest ≠ []) :
    ∃ c, (Script.chars text)[offset text (skipBlanks rest)]? = some c
      ∧ isBlank c = false := by
  obtain ⟨-, hfound⟩ := outcome_eq_found_iff.1 h
  obtain ⟨read, last, hread, -⟩ :=
    Grammar.rule_leaves _ .expression _ _ _ hfound
  have hsuffix : skipBlanks rest <:+ Script.chars text := by
    refine (List.dropWhile_suffix isBlank).trans ?_
    refine List.IsSuffix.trans ⟨read ++ [last], ?_⟩
      (List.dropWhile_suffix isBlank)
    rw [List.append_assoc]
    exact hread.symm
  obtain ⟨front, htext⟩ := hsuffix
  have hoffset : offset text (skipBlanks rest) = front.length := by
    rw [offset, ← htext, List.length_append, Nat.add_sub_cancel]
  obtain ⟨c, tail, htail⟩ := List.exists_cons_of_ne_nil hne
  have hblank := notAhead_dropWhile isBlank rest
  refine ⟨c, ?_, hblank c ?_⟩
  · rw [hoffset, ← htext, htail]
    simp
  · rw [show rest.dropWhile isBlank = c :: tail from htail]
    rfl

end Expr

/-- A reading that fails, and not for its depth, fails with the whole text
and at the end of the longest beginning that is an expression and does not
cut a word, which is in front of a character that is not blank; or, where no
such beginning is an expression, at the first character that is not
blank. -/
theorem parse_error_position {τ : Type} [Script τ] (text : τ)
    (maxDepth : Int) (stack : Stack) (error : ParseError τ)
    (h : (Expr.parse text maxDepth stack).value = .error error)
    (hdepth : ∀ position depth, .depthExceeded text position depth
      ∉ (Expr.parse text maxDepth stack).events)
    (hstack : ∀ depth, .stackExhausted text depth
      ∉ (Expr.parse text maxDepth stack).events) :
    ∃ position : Nat, error = ⟨text, position⟩
      ∧ (IsGreatest (Expr.readableUpTo text maxDepth stack) position
          ∧ (∃ c, (Script.chars text)[position]? = some c ∧ isBlank c = false)
        ∨ Expr.readableUpTo text maxDepth stack = ∅
          ∧ position = Expr.firstNonBlank text) := by
  rcases Expr.parse_error_cases h hdepth hstack with
    ⟨t, rest, hfound, hne, rfl⟩ | ⟨habsent, rfl⟩
  · exact ⟨_, rfl, Or.inl ⟨Expr.isGreatest_offset hfound,
      Expr.getElem?_offset hfound hne⟩⟩
  · exact ⟨_, rfl, Or.inr ⟨Expr.readableUpTo_eq_empty habsent, rfl⟩⟩

/-- The exception after WITH looks like a reference, so only what is in
front of WITH is an expression. `A WITH LicenseRef` would be one too, but it
cuts a word. -/
theorem parse_error_position_of_exception :
    (Expr.parse "A WITH LicenseRef-x").value
        = .error ⟨"A WITH LicenseRef-x", 2⟩
    ∧ IsGreatest
        (Expr.readableUpTo "A WITH LicenseRef-x" defaultMaxDepth {}) 2 := by
  have hvalue : (Expr.parse "A WITH LicenseRef-x").value
      = .error ⟨"A WITH LicenseRef-x", 2⟩ := by decide +kernel
  have hevents : (Expr.parse "A WITH LicenseRef-x").events
      = [.parseFailed "A WITH LicenseRef-x" 2] := by decide +kernel
  refine ⟨hvalue, ?_⟩
  obtain ⟨position, herror, ⟨hgreatest, -⟩ | ⟨-, hposition⟩⟩ :=
    parse_error_position "A WITH LicenseRef-x" defaultMaxDepth {} _ hvalue
      (fun _ _ h => by rw [hevents] at h; simp at h)
      (fun _ h => by rw [hevents] at h; simp at h)
  · obtain rfl : 2 = position :=
      Int.ofNat_inj.1 (congrArg ParseError.position herror)
    exact hgreatest
  · rw [show Expr.firstNonBlank "A WITH LicenseRef-x" = 0 by decide]
      at hposition
    rw [hposition] at herror
    cases herror

end LicenseExpr
