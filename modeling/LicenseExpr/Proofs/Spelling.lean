/-
How operators are spelled: blanks, the word in some mixture of cases, and
blanks again.

`Spelling word` is one such text, kept in its three parts. An operator is
found exactly where a spelling of it stands, and a text can be cut into a
spelling and a rest in one way only, whatever the words are: the letters of
a spelling stand between blanks and are none themselves.

The last section is about the one operator that does not join expressions:
WITH and the exception it announces.
-/
import LicenseExpr.Proofs.Word

namespace LicenseExpr

open Text

-- ============================================================= blanks

/-- Blanks, one at least. -/
def IsGap (gap : List Char) : Prop :=
  gap ≠ [] ∧ ∀ c ∈ gap, isBlank c = true

instance (gap : List Char) : Decidable (IsGap gap) :=
  decidable_of_iff (gap ≠ [] ∧ gap.all isBlank = true)
    (and_congr Iff.rfl List.all_eq_true)

/-- No license is written with blanks. -/
theorem isLicenseChar_of_isBlank {c : Char} (h : isBlank c = true) :
    isLicenseChar c = false := by
  simp only [isBlank, Bool.or_eq_true, beq_iff_eq] at h
  rcases h with ((rfl | rfl) | rfl) | rfl <;> decide

theorem isIdChar_of_isBlank {c : Char} (h : isBlank c = true) :
    isIdChar c = false := by
  have hlicense := isLicenseChar_of_isBlank h
  simp only [isLicenseChar, Bool.or_eq_false_iff] at hlicense
  exact hlicense.1.1

theorem isBlank_of_isLicenseChar {c : Char} (h : isLicenseChar c = true) :
    isBlank c = false := by
  cases hb : isBlank c with
  | false => rfl
  | true => rw [isLicenseChar_of_isBlank hb] at h; cases h

theorem isBlank_of_isIdChar {c : Char} (h : isIdChar c = true) :
    isBlank c = false :=
  isBlank_of_isLicenseChar (isLicenseChar_of_isIdChar h)

/-- A text of license characters does not end with a blank. -/
theorem exists_last {cs : List Char} (hne : cs ≠ [])
    (h : ∀ c ∈ cs, isLicenseChar c = true) :
    ∃ front c, cs = front ++ [c] ∧ isBlank c = false := by
  rcases List.eq_nil_or_concat cs with rfl | ⟨front, c, rfl⟩
  · exact absurd rfl hne
  · rw [List.concat_eq_append] at h ⊢
    exact ⟨front, c, rfl, isBlank_of_isLicenseChar (h c (by simp))⟩

/-- In front of blanks no character stands of a class without blanks. -/
theorem IsGap.notAhead {q : Char → Bool} {gap rest : List Char}
    (h : IsGap gap) (hq : ∀ c, isBlank c = true → q c = false) :
    NotAhead q (gap ++ rest) := by
  rw [notAhead_append h.1]
  intro c hc
  exact hq c (h.2 c (List.mem_of_head? hc))

/-- Skipping blanks lands on the text behind them. -/
theorem skipBlanks_run {gap rest : List Char}
    (hgap : ∀ c ∈ gap, isBlank c = true) (hrest : NotAhead isBlank rest) :
    skipBlanks (gap ++ rest) = rest :=
  dropWhile_run hgap hrest

/-- A text is blanks and a rest that skipping them lands on. -/
theorem exists_skipBlanks (cs : List Char) :
    ∃ gap rest, cs = gap ++ rest ∧ (∀ c ∈ gap, isBlank c = true)
      ∧ NotAhead isBlank rest ∧ skipBlanks cs = rest :=
  ⟨cs.takeWhile isBlank, cs.dropWhile isBlank,
    List.takeWhile_append_dropWhile.symm,
    List.all_eq_true.1 List.all_takeWhile, notAhead_dropWhile _ _, rfl⟩

-- ========================================================== spellings

/-- The letters spell `word` in some mixture of ASCII cases. -/
def Spells (letters : List Char) (word : String) : Prop :=
  (∀ c ∈ letters, isAscii c = true)
    ∧ letters.map Char.toUpper = word.toList

instance (letters : List Char) (word : String) :
    Decidable (Spells letters word) :=
  decidable_of_iff
    (letters.all isAscii = true ∧ letters.map Char.toUpper = word.toList)
    (and_congr List.all_eq_true Iff.rfl)

/-- The words of operators are made of capital letters. -/
def IsOperatorWord (word : String) : Prop :=
  word.toList ≠ [] ∧ ∀ c ∈ word.toList, c.isUpper = true

instance (word : String) : Decidable (IsOperatorWord word) :=
  decidable_of_iff (word.toList ≠ [] ∧ word.toList.all Char.isUpper = true)
    (and_congr Iff.rfl List.all_eq_true)

/-- An operator as a text spells it, with the blanks around it. -/
@[ext] structure Spelling (word : String) where
  before : List Char
  letters : List Char
  after : List Char
  gapBefore : IsGap before
  spells : Spells letters word
  gapAfter : IsGap after

/-- A spelling in full. -/
def Spelling.text {word : String} (s : Spelling word) : List Char :=
  s.before ++ s.letters ++ s.after

/-- What stands after a spelling of `word` is what is left when the spelling
is taken off. -/
theorem afterAnyCase?_eq_some_iff {word cs rest : List Char} :
    afterAnyCase? word cs = some rest ↔
      ∃ letters, cs = letters ++ rest ∧ (∀ c ∈ letters, isAscii c = true)
        ∧ letters.map Char.toUpper = word := by
  induction word generalizing cs with
  | nil => simp [afterAnyCase?]
  | cons w word ih =>
      cases cs with
      | nil => simp [afterAnyCase?]
      | cons c cs =>
          by_cases hc : (isAscii c && c.toUpper == w) = true
          · rw [afterAnyCase?, if_pos hc, ih]
            simp only [Bool.and_eq_true, beq_iff_eq] at hc
            constructor
            · intro h
              obtain ⟨letters, rfl, hascii, hword⟩ := h
              exact ⟨c :: letters, rfl,
                List.forall_mem_cons.2 ⟨hc.1, hascii⟩, by simp [hc.2, hword]⟩
            · intro h
              obtain ⟨letters, hcs, hascii, hword⟩ := h
              cases letters with
              | nil => cases hword
              | cons c' letters =>
                  rw [List.cons_append, List.cons.injEq] at hcs
                  rw [List.map_cons, List.cons.injEq] at hword
                  exact ⟨letters, hcs.2,
                    (List.forall_mem_cons.1 hascii).2, hword.2⟩
          · rw [afterAnyCase?, if_neg hc]
            simp only [Bool.and_eq_true, beq_iff_eq] at hc
            constructor
            · intro h; cases h
            · intro h
              obtain ⟨letters, hcs, hascii, hword⟩ := h
              cases letters with
              | nil => cases hword
              | cons c' letters =>
                  rw [List.cons_append, List.cons.injEq] at hcs
                  rw [List.map_cons, List.cons.injEq] at hword
                  refine absurd ⟨?_, ?_⟩ hc
                  · rw [hcs.1]; exact (List.forall_mem_cons.1 hascii).1
                  · rw [hcs.1]; exact hword.1

theorem isIdChar_of_isAlpha {c : Char} (h : c.isAlpha = true) :
    isIdChar c = true := by
  unfold isIdChar
  show (((c.isAlpha || c.isDigit) || c == '-') || c == '.') = true
  rw [h]
  rfl

/-- A letter with a capital is an identifier character, in either case. -/
theorem isIdChar_of_isUpper_toUpper {c : Char}
    (h : c.toUpper.isUpper = true) : isIdChar c = true := by
  refine isIdChar_of_isAlpha ?_
  show (c.isUpper || c.isLower) = true
  unfold Char.toUpper at h
  split at h
  case isTrue hlower =>
    have hc : c.isLower = true := by
      show (decide ('a'.val ≤ c.val) && decide (c.val ≤ 'z'.val)) = true
      rw [decide_eq_true hlower.1, decide_eq_true hlower.2]
      rfl
    rw [hc, Bool.or_true]
  case isFalse => rw [h, Bool.true_or]

/-- The letters of an operator are identifier characters. -/
theorem Spells.isIdChar {word : String} {letters : List Char}
    (h : Spells letters word) (hword : IsOperatorWord word) :
    ∀ c ∈ letters, isIdChar c = true := by
  intro c hc
  refine isIdChar_of_isUpper_toUpper (hword.2 _ ?_)
  rw [← h.2]
  exact List.mem_map_of_mem hc

/-- The letters of an operator are at least one. -/
theorem Spells.ne_nil {word : String} {letters : List Char}
    (h : Spells letters word) (hword : IsOperatorWord word) :
    letters ≠ [] := by
  intro hnil
  rw [hnil] at h
  exact hword.1 h.2.symm

/-- Where an operator stands a license does not go on. -/
theorem Spelling.notAhead_text {word : String} (s : Spelling word)
    (rest : List Char) : NotAhead isLicenseChar (s.text ++ rest) := by
  rw [Spelling.text, List.append_assoc, List.append_assoc]
  exact s.gapBefore.notAhead fun _ => isLicenseChar_of_isBlank

/-- The letters of an operator do not begin with a blank. -/
theorem Spelling.notAhead_letters {word : String}
    (hword : IsOperatorWord word) (s : Spelling word) :
    NotAhead isBlank s.letters := by
  intro c hc
  exact isBlank_of_isIdChar
    (s.spells.isIdChar hword c (List.mem_of_head? hc))

/-- A text is a spelling of an operator and a rest in one way only, also
where the operators might be different ones. -/
theorem Spelling.unique {word word' : String} {rest rest' : List Char}
    (hword : IsOperatorWord word) (hword' : IsOperatorWord word')
    (s : Spelling word) (s' : Spelling word')
    (hrest : NotAhead isBlank rest) (hrest' : NotAhead isBlank rest')
    (h : s.text ++ rest = s'.text ++ rest') :
    word = word' ∧ HEq s s' ∧ rest = rest' := by
  have hblank {word : String} (hword : IsOperatorWord word)
      (s : Spelling word) (more : List Char) :
      NotAhead isBlank (s.letters ++ more) :=
    (notAhead_append (s.spells.ne_nil hword)).2 (s.notAhead_letters hword)
  have hletters {word : String} (s : Spelling word) (more : List Char) :
      NotAhead isIdChar (s.after ++ more) :=
    s.gapAfter.notAhead fun _ => isIdChar_of_isBlank
  simp only [Spelling.text, List.append_assoc] at h
  obtain ⟨hbefore, h⟩ := run_unique h s.gapBefore.2 s'.gapBefore.2
    (hblank hword s _) (hblank hword' s' _)
  obtain ⟨hspelled, h⟩ := run_unique h (s.spells.isIdChar hword)
    (s'.spells.isIdChar hword') (hletters s _) (hletters s' _)
  obtain ⟨hafter, hrests⟩ :=
    run_unique h s.gapAfter.2 s'.gapAfter.2 hrest hrest'
  have hsame : word = word' := by
    rw [← String.toList_inj, ← s.spells.2, ← s'.spells.2, hspelled]
  subst hsame
  exact ⟨rfl, heq_of_eq (Spelling.ext hbefore hspelled hafter), hrests⟩

/-- A text is a spelling of one operator and a rest in one way only. -/
theorem Spelling.eq_of_append {word : String} {rest rest' : List Char}
    (hword : IsOperatorWord word) (s s' : Spelling word)
    (hrest : NotAhead isBlank rest) (hrest' : NotAhead isBlank rest')
    (h : s.text ++ rest = s'.text ++ rest') : s = s' ∧ rest = rest' := by
  obtain ⟨-, hs, hrests⟩ := unique hword hword s s' hrest hrest' h
  exact ⟨eq_of_heq hs, hrests⟩

namespace Recognizer

variable {word : String} {cs rest : List Char}

/-- An operator is found exactly where a spelling of its word stands whose
letters are at least one and do not begin with a blank. This holds for every
word, also for one that has blanks in it. -/
theorem operator_eq_some_iff :
    operator word cs = some ((), rest) ↔
      ∃ s : Spelling word, cs = s.text ++ rest ∧ s.letters ≠ []
        ∧ NotAhead isBlank s.letters ∧ NotAhead isBlank rest := by
  constructor
  · intro h
    cases cs with
    | nil => cases h
    | cons c ahead =>
        simp only [operator] at h
        split at h
        case isFalse => cases h
        case isTrue hc =>
          split at h
          case h_2 => cases h
          case h_1 d behind hletters =>
            split at h
            case isFalse => cases h
            case isTrue hd =>
              obtain ⟨before, start, rfl, hbefore, hblank, hstart⟩ :=
                exists_skipBlanks ahead
              obtain ⟨after, left, rfl, hafter, hleft, hend⟩ :=
                exists_skipBlanks behind
              simp only [Option.some.injEq, Prod.mk.injEq, true_and] at h
              rw [hend] at h
              subst h
              rw [hstart] at hletters
              obtain ⟨letters, rfl, hspells⟩ :=
                afterAnyCase?_eq_some_iff.1 hletters
              -- a word without letters would leave the blank `d` ahead
              have hne : letters ≠ [] := by
                intro hnil
                rw [hnil, List.nil_append, notAhead_cons, hd] at hblank
                cases hblank
              refine ⟨⟨c :: before, letters, d :: after,
                ⟨by simp, List.forall_mem_cons.2 ⟨hc, hbefore⟩⟩, hspells,
                ⟨by simp, List.forall_mem_cons.2 ⟨hd, hafter⟩⟩⟩, ?_, hne,
                (notAhead_append hne).1 hblank, hleft⟩
              simp [Spelling.text]
  · intro h
    obtain ⟨⟨before, letters, after, ⟨hne, hbefore⟩, hspells,
      ⟨hne', hafter⟩⟩, rfl, hletter, hblank, hrest⟩ := h
    obtain ⟨c, before, rfl⟩ := List.exists_cons_of_ne_nil hne
    obtain ⟨d, after, rfl⟩ := List.exists_cons_of_ne_nil hne'
    rw [List.forall_mem_cons] at hbefore hafter
    have hskip : skipBlanks (before ++ (letters ++ d :: (after ++ rest)))
        = letters ++ d :: (after ++ rest) :=
      skipBlanks_run hbefore.2 ((notAhead_append hletter).2 hblank)
    have hletters : afterAnyCase? word.toList
        (letters ++ d :: (after ++ rest)) = some (d :: (after ++ rest)) :=
      afterAnyCase?_eq_some_iff.2 ⟨letters, rfl, hspells⟩
    have hend : skipBlanks (after ++ rest) = rest :=
      skipBlanks_run hafter.2 hrest
    simp [Spelling.text, operator, hbefore.1, hskip, hletters, hafter.1,
      hend]

/-- Where an operator is found a spelling of it stands. -/
theorem operator_sound (h : operator word cs = some ((), rest)) :
    ∃ s : Spelling word, cs = s.text ++ rest ∧ NotAhead isBlank rest := by
  obtain ⟨s, hcs, -, -, hrest⟩ := operator_eq_some_iff.1 h
  exact ⟨s, hcs, hrest⟩

/-- A spelling of an operator is found, with all the blanks behind it. -/
theorem operator_complete (hword : IsOperatorWord word)
    (s : Spelling word) (hrest : NotAhead isBlank rest) :
    operator word (s.text ++ rest) = some ((), rest) :=
  operator_eq_some_iff.2
    ⟨s, rfl, s.spells.ne_nil hword, s.notAhead_letters hword, hrest⟩

/-- Where another operator stands, an operator is not found. -/
theorem operator_of_other {word' : String} (hword : IsOperatorWord word)
    (hword' : IsOperatorWord word') (hne : word ≠ word')
    (s : Spelling word') (hrest : NotAhead isBlank rest) :
    operator word (s.text ++ rest) = none := by
  cases h : operator word (s.text ++ rest) with
  | none => rfl
  | some found =>
      obtain ⟨s', hs', hrest'⟩ := operator_sound h
      exact absurd (Spelling.unique hword hword' s' s hrest' hrest
        hs'.symm).1 hne

end Recognizer

-- ================================================ where texts are closed

/-- Nothing is ahead but blanks, and behind them the end of the text or a
parenthesis that closes. -/
def Closed (cs : List Char) : Prop :=
  ∃ gap rest, cs = gap ++ rest ∧ (∀ c ∈ gap, isBlank c = true)
    ∧ ∀ c ∈ rest.head?, c = ')'

/-- Before the end of a text blanks are closed. -/
theorem closed_of_blank {gap : List Char}
    (hgap : ∀ c ∈ gap, isBlank c = true) : Closed gap :=
  ⟨gap, [], by simp, hgap, by simp⟩

/-- Before a closing parenthesis blanks are closed. -/
theorem closed_of_closing {gap : List Char} (rest : List Char)
    (hgap : ∀ c ∈ gap, isBlank c = true) : Closed (gap ++ ')' :: rest) :=
  ⟨gap, ')' :: rest, rfl, hgap, by simp⟩

/-- A closed text does not go on with a class that has neither blanks nor
the closing parenthesis in it. -/
theorem Closed.notAhead {q : Char → Bool} {cs : List Char} (h : Closed cs)
    (hq : ∀ c, isBlank c = true → q c = false) (hclosing : q ')' = false) :
    NotAhead q cs := by
  obtain ⟨gap, rest, rfl, hgap, hrest⟩ := h
  cases gap with
  | nil =>
      intro c hc
      rw [hrest c hc]
      exact hclosing
  | cons d gap => exact IsGap.notAhead ⟨List.cons_ne_nil d gap, hgap⟩ hq

/-- A closed text does not go on with a license. -/
theorem Closed.notAhead_license {cs : List Char} (h : Closed cs) :
    NotAhead isLicenseChar cs :=
  h.notAhead (fun _ => isLicenseChar_of_isBlank) rfl

/-- A closed text does not go on with an operator. -/
theorem Closed.operator {cs : List Char} {word : String} (h : Closed cs)
    (hword : IsOperatorWord word) :
    Recognizer.operator word cs = none := by
  cases hop : Recognizer.operator word cs with
  | none => rfl
  | some found =>
      obtain ⟨gap, rest, rfl, hgap, hrest⟩ := h
      obtain ⟨s, hs, -⟩ := Recognizer.operator_sound hop
      have hletters := s.spells.isIdChar hword
      obtain ⟨c, letters, hcl⟩ :=
        List.exists_cons_of_ne_nil (s.spells.ne_nil hword)
      rw [hcl, List.forall_mem_cons] at hletters
      rw [Spelling.text, hcl, List.append_assoc, List.append_assoc] at hs
      have hrest' : NotAhead isBlank rest := by
        intro d hd
        rw [hrest d hd]
        decide
      obtain ⟨-, rfl⟩ := run_unique hs hgap s.gapBefore.2 hrest'
        (by simpa using isBlank_of_isIdChar hletters.1)
      have hclosing : c = ')' := hrest c (by simp)
      rw [hclosing] at hletters
      cases hletters.1

-- ============================================== WITH and its exception

theorem isOperatorWord_with : IsOperatorWord "WITH" := by decide

theorem isOperatorWord_and : IsOperatorWord "AND" := by decide

theorem isOperatorWord_or : IsOperatorWord "OR" := by decide

/-- The name of an exception: an id string that looks neither like a
qualifier nor like a reference. -/
def IsExceptionName (name : String) : Prop :=
  IsIdString name ∧ ¬ documentMark.toList <+: name.toList
    ∧ ¬ referenceMark.toList <+: name.toList

instance (name : String) : Decidable (IsExceptionName name) :=
  inferInstanceAs (Decidable (_ ∧ _))

/-- The name of an exception could name a license as well. -/
theorem IsExceptionName.wellFormed {name : String}
    (h : IsExceptionName name) : License.WellFormed ⟨name, none, false⟩ := by
  obtain ⟨hid, -, hmark⟩ := h
  refine ⟨rfl, Or.inl hid, ?_⟩
  intro hreference
  obtain ⟨c, tail, htext, -⟩ := hreference
  exact hmark ⟨c :: tail, htext.symm⟩

/-- An id string does not begin with a blank. -/
theorem IsIdString.notAhead {id : String} (h : IsIdString id)
    (rest : List Char) : NotAhead isBlank (id.toList ++ rest) := by
  obtain ⟨c, tail, hct, hc⟩ := h.ahead
  rw [hct, List.cons_append, notAhead_cons]
  exact isBlank_of_isIdChar hc

namespace Recognizer

variable {cs rest : List Char}

/-- An exception is found exactly where WITH stands in front of a name that
does not go on. -/
theorem exception_eq_some_iff {name : String} :
    exception cs = some (name, rest) ↔
      ∃ s : Spelling "WITH", cs = s.text ++ name.toList ++ rest
        ∧ IsExceptionName name ∧ NotAhead isIdChar rest := by
  simp only [exception, Option.bind_eq_bind, Option.bind_eq_some_iff]
  constructor
  · intro h
    obtain ⟨⟨⟨⟩, ahead⟩, hop, ⟨id, behind⟩, hid, h⟩ := h
    obtain ⟨s, rfl, -⟩ := operator_sound hop
    obtain ⟨hahead, hstring, hbehind⟩ := idString_eq_some_iff.1 hid
    simp only at hahead
    subst hahead
    split at h
    case isTrue => cases h
    case isFalse hmark =>
      simp only [Option.some.injEq, Prod.mk.injEq] at h
      obtain ⟨rfl, rfl⟩ := h
      simp only [Bool.or_eq_true, List.isPrefixOf_iff_prefix, not_or]
        at hmark
      exact ⟨s, by simp, ⟨hstring, hmark⟩, hbehind⟩
  · intro h
    obtain ⟨s, rfl, ⟨hstring, hmark⟩, hrest⟩ := h
    refine ⟨((), name.toList ++ rest), ?_, (name, rest),
      idString_eq_some_iff.2 ⟨rfl, hstring, hrest⟩, ?_⟩
    · rw [List.append_assoc]
      exact operator_complete isOperatorWord_with s (hstring.notAhead rest)
    · rw [if_neg]
      simpa [List.isPrefixOf_iff_prefix] using hmark

/-- Where no WITH stands there is no exception. -/
theorem exception_of_operator (h : operator "WITH" cs = none) :
    exception cs = none := by
  rw [exception, h]
  rfl

end Recognizer

end LicenseExpr
