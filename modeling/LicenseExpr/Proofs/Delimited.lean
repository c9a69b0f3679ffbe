/-
Where an operator stands in a text: as a word between blanks.

The recognizer for an operator compares as many characters as the word has,
wherever the blanks in front of them end, and then looks for blanks again.
Nothing is asked of the word. It may be empty, have blanks in it or end with
one, or be no operator of the grammar at all, and the text may be any text.
Still what is read is a word in its own right: its letters are at least one,
they do not begin with a blank, and the blanks on both sides are all that
stand there.

# Any word

Blanks in front are read to their end, so the letters cannot begin with one;
this is also why an empty word is never read, which would have to end where
the blanks do. Letters are compared in upper case and only if they are
ASCII, so nothing outside ASCII is read for a letter that it has as its
upper case, and a word that has other letters than capitals is never read.
-/
import LicenseExpr.Proofs.Longest
import LicenseExpr.Proofs.Spelling
import Mathlib.Data.Set.Subsingleton

namespace LicenseExpr

open Text Recognizer

-- ======================================================= upper case

/-- Capitals by their numbers. -/
theorem isUpper_iff {c : Char} :
    c.isUpper = true ↔ 65 ≤ c.toNat ∧ c.toNat ≤ 90 := by
  show decide (_ ∧ _) = true ↔ _
  rw [decide_eq_true_eq]
  exact and_congr UInt32.le_iff_toNat_le UInt32.le_iff_toNat_le

/-- Lower-case letters by their numbers. -/
theorem isLower_iff {c : Char} :
    c.isLower = true ↔ 97 ≤ c.toNat ∧ c.toNat ≤ 122 := by
  show (decide _ && decide _) = true ↔ _
  rw [Bool.and_eq_true, decide_eq_true_eq, decide_eq_true_eq]
  exact and_congr UInt32.le_iff_toNat_le UInt32.le_iff_toNat_le

/-- Upper case makes a capital of a lower-case letter, and leaves any other
character as it is. -/
theorem toUpper_cases (c : Char) :
    c.toUpper = c ∧ c.isLower = false ∨ c.toUpper.isUpper = true := by
  unfold Char.toUpper
  split
  case isTrue h =>
    have hlow : 97 ≤ c.toNat := UInt32.le_iff_toNat_le.1 h.1
    have hhigh : c.toNat ≤ 122 := UInt32.le_iff_toNat_le.1 h.2
    -- the distance of the cases is negative, so the sum wraps around
    have hshift : (c.val + ('A'.val - 'a'.val)).toNat = c.toNat - 32 := by
      rw [UInt32.toNat_add]
      show (c.toNat + 4294967264) % 4294967296 = _
      omega
    right
    rw [isUpper_iff]
    show 65 ≤ (c.val + ('A'.val - 'a'.val)).toNat
      ∧ (c.val + ('A'.val - 'a'.val)).toNat ≤ 90
    omega
  case isFalse h =>
    refine Or.inl ⟨rfl, Bool.eq_false_iff.2 fun hlower => h ?_⟩
    obtain ⟨hlow, hhigh⟩ := isLower_iff.1 hlower
    exact ⟨UInt32.le_iff_toNat_le.2 hlow, UInt32.le_iff_toNat_le.2 hhigh⟩

/-- What upper case makes is no lower-case letter. -/
theorem isLower_toUpper (c : Char) : c.toUpper.isLower = false := by
  rcases toUpper_cases c with ⟨hsame, hlower⟩ | hupper
  · rwa [hsame]
  · rw [isUpper_iff] at hupper
    rw [Bool.eq_false_iff, ne_eq, isLower_iff]
    omega

theorem isAscii_of_isUpper {c : Char} (h : c.isUpper = true) :
    isAscii c = true := by
  rw [isUpper_iff] at h
  rw [isAscii, decide_eq_true_eq]
  omega

theorem isAscii_of_isBlank {c : Char} (h : isBlank c = true) :
    isAscii c = true := by
  simp only [isBlank, Bool.or_eq_true, beq_iff_eq] at h
  rcases h with ((rfl | rfl) | rfl) | rfl <;> decide

/-- Upper case does not lead out of ASCII. -/
theorem isAscii_toUpper {c : Char} (h : isAscii c = true) :
    isAscii c.toUpper = true := by
  rcases toUpper_cases c with ⟨hsame, -⟩ | hupper
  · rwa [hsame]
  · exact isAscii_of_isUpper hupper

/-- Upper case makes no blank. -/
theorem isBlank_toUpper {c : Char} (h : isBlank c = false) :
    isBlank c.toUpper = false := by
  rcases toUpper_cases c with ⟨hsame, -⟩ | hupper
  · rwa [hsame]
  · refine isBlank_of_isIdChar (isIdChar_of_isAlpha ?_)
    show (c.toUpper.isUpper || c.toUpper.isLower) = true
    rw [hupper, Bool.true_or]

-- ================================================== words that are spelled

section Spells

variable {word : String} {letters : List Char}

/-- Letter by letter, so a word has as many characters as its letters. -/
theorem Spells.length_eq (h : Spells letters word) :
    letters.length = word.length := by
  rw [← String.length_toList, ← h.2, List.length_map]

/-- A word that is spelled has neither lower-case letters nor anything
outside ASCII in it. -/
theorem Spells.chars (h : Spells letters word) :
    ∀ w ∈ word.toList, w.isLower = false ∧ isAscii w = true := by
  intro w hw
  rw [← h.2, List.mem_map] at hw
  obtain ⟨c, hc, rfl⟩ := hw
  exact ⟨isLower_toUpper c, isAscii_toUpper (h.1 c hc)⟩

/-- A word begins with a blank only where its letters do. -/
theorem Spells.notAhead (h : Spells letters word)
    (hblank : NotAhead isBlank letters) : NotAhead isBlank word.toList := by
  rw [← h.2]
  cases letters with
  | nil => exact notAhead_nil
  | cons c letters =>
      rw [List.map_cons, notAhead_cons]
      exact isBlank_toUpper (notAhead_cons.1 hblank)

/-- All that is read for an operator is ASCII. -/
theorem Spelling.isAscii (s : Spelling word) :
    ∀ c ∈ s.text, isAscii c = true := by
  rw [Spelling.text, List.forall_mem_append, List.forall_mem_append]
  exact ⟨⟨fun c hc => isAscii_of_isBlank (s.gapBefore.2 c hc), s.spells.1⟩,
    fun c hc => isAscii_of_isBlank (s.gapAfter.2 c hc)⟩

end Spells

-- ==================================================== at an offset

/-- Where the operator `word` may end that is read from an offset on. Up to
there the text spells it, with as many letters as the word has, one at
least, that do not begin with a blank; and there the text ends, or goes on
with something other than a blank. -/
def operatorEnds (text : String) (start : Nat) (word : String) : Set Nat :=
  { stop |
    (∃ s : Spelling word, (slice text start stop).toList = s.text
      ∧ s.letters.length = word.length ∧ s.letters ≠ []
      ∧ NotAhead isBlank s.letters)
    ∧ (stop = text.length
      ∨ ∃ c, text.toList[stop]? = some c ∧ isBlank c = false) }

section Offsets

variable {text word : String} {start stop : Nat}

/-- The blanks behind an operator are at least one. -/
theorem Spelling.text_ne_nil (s : Spelling word) : s.text ≠ [] :=
  List.append_ne_nil_of_right_ne_nil _ s.gapAfter.1

/-- An operator is read off the beginning of a text. -/
theorem operator_splits (word : String) : (operator word).Splits := by
  intro cs value rest h
  obtain ⟨s, hcs, -⟩ := operator_sound h
  exact ⟨s.text, s.text_ne_nil, hcs⟩

theorem lt_length_of_getElem? {c : Char} (h : text.toList[stop]? = some c) :
    stop < text.length := by
  rw [← String.length_toList]
  exact (List.getElem?_eq_some_iff.1 h).1

/-- No blank is ahead of an offset of the text if the text ends there or
goes on with another character. -/
theorem notAhead_drop_iff (hstop : stop ≤ text.length) :
    NotAhead isBlank (text.toList.drop stop) ↔
      stop = text.length
        ∨ ∃ c, text.toList[stop]? = some c ∧ isBlank c = false := by
  rw [NotAhead, List.head?_drop]
  cases hc : text.toList[stop]? with
  | none =>
      have hle := List.getElem?_eq_none_iff.1 hc
      rw [String.length_toList] at hle
      simp [Nat.le_antisymm hstop hle]
  | some c => simp [Nat.ne_of_lt (lt_length_of_getElem? hc)]

/-- An operator is read up to the offsets where it may end, and no others. -/
theorem operator_at_eq_some_iff :
    (operator word).at text start = some (stop, ())
      ↔ stop ∈ operatorEnds text start word := by
  rw [at_eq_some_iff (operator_splits word), operator_eq_some_iff]
  constructor
  · rintro ⟨hlt, hstop, s, hahead, hne, hblank, hrest⟩
    rw [drop_eq_slice (Nat.le_of_lt hlt)] at hahead
    exact ⟨⟨s, List.append_cancel_right hahead, s.spells.length_eq, hne,
      hblank⟩, (notAhead_drop_iff hstop).1 hrest⟩
  · rintro ⟨⟨s, hslice, -, hne, hblank⟩, hend⟩
    have hlt : start < stop :=
      lt_of_slice_ne_nil (by rw [hslice]; exact s.text_ne_nil)
    have hstop : stop ≤ text.length := by
      rcases hend with rfl | ⟨c, hc, -⟩
      · exact Nat.le_refl _
      · exact Nat.le_of_lt (lt_length_of_getElem? hc)
    refine ⟨hlt, hstop, s, ?_, hne, hblank, (notAhead_drop_iff hstop).2 hend⟩
    rw [drop_eq_slice (Nat.le_of_lt hlt), hslice]

/-- No operator is read exactly where there is no offset for it to end. -/
theorem operator_at_eq_none_iff :
    (operator word).at text start = none
      ↔ operatorEnds text start word = ∅ := by
  rw [Option.eq_none_iff_forall_ne_some, Set.eq_empty_iff_forall_notMem]
  constructor
  · intro h stop hstop
    exact h (stop, ()) (operator_at_eq_some_iff.2 hstop)
  · rintro h ⟨stop, ⟨⟩⟩ hread
    exact h stop (operator_at_eq_some_iff.1 hread)

/-- Some words are never read: the empty one, one with a letter that is no
capital, and one that begins with a blank. -/
theorem operatorEnds_eq_empty
    (h : word = ""
      ∨ (∃ c ∈ word.toList, c.isLower = true ∨ isAscii c = false)
      ∨ ∃ c ∈ word.toList.head?, isBlank c = true) :
    operatorEnds text start word = ∅ := by
  rw [Set.eq_empty_iff_forall_notMem]
  rintro stop ⟨⟨s, -, hlength, hne, hblank⟩, -⟩
  rcases h with rfl | ⟨c, hc, hother⟩ | ⟨c, hc, hother⟩
  · exact hne (List.length_eq_zero_iff.1 hlength)
  -- a letter of the word is the upper case of an ASCII letter
  · obtain ⟨hlower, hascii⟩ := s.spells.chars c hc
    rw [hlower, hascii] at hother
    rcases hother with hother | hother <;> cases hother
  · rw [s.spells.notAhead hblank c hc] at hother
    cases hother

end Offsets

/-- From an offset on, which may lie behind the end of the text, any word is
read as an operator exactly where it stands between blanks: up to an offset
where the text so far spells it and no further blank follows. There is one
such offset at most, and where there is none nothing is read. So nothing is
ever read for an empty word, for a word that has lower-case letters or
anything outside ASCII in it, and for a word that begins with a blank; and
what is read has nothing outside ASCII in it, whatever its upper case
is. -/
theorem operator_delimited (text : String) (start : Nat) (word : String) :
    (∀ stop, (operator word).at text start = some (stop, ())
      ↔ stop ∈ operatorEnds text start word)
    ∧ ((operator word).at text start = none
      ↔ operatorEnds text start word = ∅)
    ∧ (operatorEnds text start word).Subsingleton
    ∧ ((word = ""
        ∨ (∃ c ∈ word.toList, c.isLower = true ∨ isAscii c = false)
        ∨ ∃ c ∈ word.toList.head?, isBlank c = true) →
      (operator word).at text start = none)
    ∧ ∀ stop ∈ operatorEnds text start word,
      ∀ c ∈ (slice text start stop).toList, isAscii c = true := by
  refine ⟨fun stop => operator_at_eq_some_iff, operator_at_eq_none_iff,
    ?_, fun h => operator_at_eq_none_iff.2 (operatorEnds_eq_empty h), ?_⟩
  · intro stop hstop stop' hstop'
    have hread := operator_at_eq_some_iff.2 hstop
    rw [operator_at_eq_some_iff.2 hstop'] at hread
    cases hread
    rfl
  · rintro stop ⟨⟨s, hslice, -⟩, -⟩
    rw [hslice]
    exact s.isAscii

/-- A word may end with a blank; the blanks behind it begin behind that. -/
example : (operator "A B ").at "x \ta b  y" 1 = some (8, ()) := by decide

/-- The upper case of the long s is an ASCII letter. -/
example : (operator "AS").at " aſ x" 0 = none := by decide

end LicenseExpr
