/-
A single license is read by longest match.

The recognizer for licenses tries a reference first and a bare id second,
and goes back to where it began in between: a qualifier may turn out to have
no reference behind it, and the mark of a reference to have no id behind it.
None of this makes it read less than it could.

# Nothing stops short

In front of the text of a license, whatever stands behind, a license is read
that goes at least as far (`license_reaches`). The text may go on with more
of the same id, with a `+`, or with what makes a bare id the document of a
reference; then more is read, and it is one license still.

# Which license it is

Every license that text can name is the only one with its text
(`License.WellFormed.eq_of_text_eq`), because it is what its text is read
as. So the text that was read says of itself whether it is a reference.

# Offsets

A recognizer that reads off the beginning of a text, and never nothing
(`Recognizer.Splits`), reads a slice of the text from the offset where it is
run to the one that it answers (`Recognizer.at_eq_some_iff`).
-/
import LicenseExpr.Proofs.Word
import Mathlib.Data.Set.Basic
import Mathlib.Order.Bounds.Defs

namespace LicenseExpr

open Text Recognizer

-- ================================================== nothing stops short

/-- Where a text is taken apart into a run of a class and a rest in front of
which the class does not stand, every other beginning of the text that ends
where the class does not go on is as long as the run. -/
theorem length_le_of_run {p : Char → Bool} {run read rest behind : List Char}
    (h : run ++ behind = read ++ rest) (hrun : ∀ c ∈ run, p c = true)
    (hrest : NotAhead p rest) : rest.length ≤ behind.length := by
  rcases List.append_eq_append_iff.1 h with
    ⟨more, -, rfl⟩ | ⟨cut, hcut, hrest'⟩
  · simp
  · cases cut with
    | nil => exact Nat.le_of_eq (congrArg List.length hrest')
    | cons c cut =>
        rw [hrest', List.cons_append, notAhead_cons] at hrest
        rw [hcut] at hrun
        rw [hrun c (by simp)] at hrest
        cases hrest

/-- An id string goes on to where no identifier character stands. -/
theorem IsIdString.goesOn {id : String} (h : IsIdString id)
    (rest : List Char) :
    ∃ (more : String) (behind : List Char), rest = more.toList ++ behind
      ∧ IsIdString (id ++ more) ∧ NotAhead isIdChar behind := by
  refine ⟨String.ofList (rest.takeWhile isIdChar), rest.dropWhile isIdChar,
    ?_, ⟨?_, ?_⟩, notAhead_dropWhile _ _⟩
  · rw [String.toList_ofList, List.takeWhile_append_dropWhile]
  · rw [String.toList_append]
    exact List.append_ne_nil_of_left_ne_nil h.1 _
  · rw [String.toList_append, String.toList_ofList, List.forall_mem_append]
    exact ⟨h.2, List.all_eq_true.1 List.all_takeWhile⟩

/-- Where an id string ends a bare id is read, with the `+` behind it if
there is one. -/
theorem bareId_reaches {id : String} (hid : IsIdString id)
    {rest : List Char} (hrest : NotAhead isIdChar rest) :
    ∃ id' rest', bareId (id.toList ++ rest) = some (id', rest')
      ∧ rest'.length ≤ rest.length := by
  by_cases hlater : NotAhead (· == '+') rest
  · exact ⟨id, rest, bareId_eq_some_iff.2
      ⟨id, hid, Or.inr ⟨rfl, rfl, hrest, hlater⟩⟩, Nat.le_refl _⟩
  · cases rest with
    | nil => exact absurd notAhead_nil hlater
    | cons c rest =>
        obtain rfl : c = '+' := by simpa using hlater
        exact ⟨id ++ "+", rest, bareId_eq_some_iff.2
          ⟨id, hid, Or.inl ⟨rfl, rfl⟩⟩, Nat.le_succ _⟩

/-- In front of an id string a license is read that goes at least as far,
be it a reference or a bare id. -/
theorem license_reaches_idString {id : String} (hid : IsIdString id)
    {rest : List Char} (hrest : NotAhead isIdChar rest) :
    ∃ l rest', license (id.toList ++ rest) = some (l, rest')
      ∧ rest'.length ≤ rest.length := by
  -- a reference is tried first; it cannot end inside of the id string, in
  -- front of which it began
  cases hr : reference (id.toList ++ rest) with
  | some found =>
      obtain ⟨⟨document, id'⟩, rest'⟩ := found
      obtain ⟨hcs, -, -, hrest'⟩ := reference_sound hr
      exact ⟨⟨id', document, true⟩, rest', by simp only [license, hr],
        length_le_of_run hcs hid.2 hrest'⟩
  | none =>
      obtain ⟨id', rest', hbare, hle⟩ := bareId_reaches hid hrest
      exact ⟨⟨id', none, false⟩, rest',
        by simp only [license, hr, hbare, Option.map_some], hle⟩

/-- In front of the text of a license, whatever stands behind, a license is
read that goes at least as far. -/
theorem license_reaches {l : License} (hl : l.WellFormed)
    (rest : List Char) :
    ∃ l' rest', license (l.text.toList ++ rest) = some (l', rest')
      ∧ rest'.length ≤ rest.length := by
  obtain ⟨id, document, isReference⟩ := l
  cases isReference with
  | true =>
      obtain ⟨hid, hdocument⟩ : IsIdString id
          ∧ ∀ d ∈ document, IsIdString d := by
        simpa [License.WellFormed] using hl
      obtain ⟨more, behind, rfl, hmore, hbehind⟩ := hid.goesOn rest
      refine ⟨⟨id ++ more, document, true⟩, behind, ?_, by simp⟩
      have hread := reference_complete hmore hdocument hbehind
      have htext : (License.text ⟨id ++ more, document, true⟩).toList
          = (License.text ⟨id, document, true⟩).toList ++ more.toList := by
        simp only [toList_text_reference, String.toList_append,
          List.append_assoc]
      rw [htext, List.append_assoc] at hread
      simp only [license, hread]
  | false =>
      obtain ⟨rfl, hshape, hmark⟩ : document = none ∧ IsBareId id := by
        simpa [License.WellFormed] using hl
      rw [text_bare]
      rcases hshape with hid | ⟨stem, hstem, rfl⟩
      · obtain ⟨more, behind, rfl, hmore, hbehind⟩ := hid.goesOn rest
        obtain ⟨l', rest', hread, hle⟩ :=
          license_reaches_idString hmore hbehind
        rw [String.toList_append, List.append_assoc] at hread
        exact ⟨l', rest', hread, Nat.le_trans hle (by simp)⟩
      · have hbare : bareId ((stem ++ "+").toList ++ rest)
            = some (stem ++ "+", rest) :=
          bareId_eq_some_iff.2 ⟨stem, hstem, Or.inl ⟨rfl, by simp⟩⟩
        exact ⟨⟨stem ++ "+", none, false⟩, rest,
          by simp only [license, reference_later hstem hmark rest, hbare,
            Option.map_some], Nat.le_refl _⟩

/-- A license is read exactly where an identifier character stands. -/
theorem license_eq_none_iff {cs : List Char} :
    license cs = none ↔ NotAhead isIdChar cs := by
  refine ⟨fun h => ?_, license_eq_none⟩
  cases cs with
  | nil => exact notAhead_nil
  | cons c cs =>
      rw [notAhead_cons]
      cases hc : isIdChar c with
      | false => rfl
      | true =>
          have hid : IsIdString (String.ofList [c]) := by
            rw [IsIdString, String.toList_ofList]
            exact ⟨List.cons_ne_nil c [], by simpa using hc⟩
          obtain ⟨more, behind, rfl, hmore, hbehind⟩ := hid.goesOn cs
          obtain ⟨l, rest, hread, -⟩ := license_reaches_idString hmore hbehind
          rw [String.toList_append, String.toList_ofList,
            List.append_assoc] at hread
          rw [List.singleton_append] at hread
          rw [h] at hread
          cases hread

-- ================================================== texts of licenses

/-- A license is known by its text. -/
theorem License.WellFormed.eq_of_text_eq {l l' : License}
    (hl : l.WellFormed) (hl' : l'.WellFormed) (h : l.text = l'.text) :
    l = l' := by
  have hread := license_complete hl notAhead_nil
  rw [h, license_complete hl' notAhead_nil] at hread
  exact (congrArg Prod.fst (Option.some.inj hread)).symm

/-- A reference in full: the mark of a reference and an id string, in front
of which a document may stand with its mark and a colon. -/
inductive IsReference : String → Prop where
  | unqualified {id : String} (hid : IsIdString id) :
      IsReference (referenceMark ++ id)
  | qualified {document id : String} (hdocument : IsIdString document)
      (hid : IsIdString id) :
      IsReference (documentMark ++ document ++ ":" ++ referenceMark ++ id)

/-- What can be read as a single license. -/
def IsLicenseText (text : String) : Prop :=
  IsReference text ∨ IsBareId text

/-- References are the texts of licenses that are references. -/
theorem isReference_iff {text : String} :
    IsReference text ↔ ∃ l : License,
      l.WellFormed ∧ l.isReference = true ∧ l.text = text := by
  constructor
  · intro h
    cases h with
    | @unqualified id hid =>
        exact ⟨⟨id, none, true⟩, by simpa [License.WellFormed] using hid, rfl,
          by simp [License.text]⟩
    | @qualified document id hdocument hid =>
        exact ⟨⟨id, some document, true⟩,
          by simpa [License.WellFormed] using ⟨hid, hdocument⟩, rfl,
          by simp [License.text]⟩
  · rintro ⟨⟨id, document, _⟩, hl, rfl, rfl⟩
    obtain ⟨hid, hdocument⟩ : IsIdString id
        ∧ ∀ d ∈ document, IsIdString d := by
      simpa [License.WellFormed] using hl
    cases document with
    | none => simpa [License.text] using IsReference.unqualified hid
    | some d =>
        simpa [License.text] using IsReference.qualified (hdocument d rfl) hid

/-- What can be read as a license is the text of one. -/
theorem isLicenseText_iff {text : String} :
    IsLicenseText text ↔ ∃ l : License, l.WellFormed ∧ l.text = text := by
  constructor
  · rintro (href | hbare)
    · obtain ⟨l, hl, -, htext⟩ := isReference_iff.1 href
      exact ⟨l, hl, htext⟩
    · exact ⟨⟨text, none, false⟩, ⟨rfl, hbare⟩, text_bare text⟩
  · rintro ⟨l, hl, rfl⟩
    obtain ⟨id, document, isReference⟩ := l
    cases isReference with
    | true => exact .inl (isReference_iff.2 ⟨_, hl, rfl, rfl⟩)
    | false =>
        obtain ⟨rfl, hid⟩ : document = none ∧ IsBareId id := by
          simpa [License.WellFormed] using hl
        exact .inr (by rwa [text_bare])

/-- Of the licenses that text can name, the references are those whose text
is a reference. -/
theorem License.WellFormed.isReference_iff {l : License}
    (hl : l.WellFormed) : l.isReference = true ↔ IsReference l.text := by
  rw [LicenseExpr.isReference_iff]
  constructor
  · intro h
    exact ⟨l, hl, h, rfl⟩
  · rintro ⟨l', hl', href, htext⟩
    rwa [hl'.eq_of_text_eq hl htext] at href

/-- Only a reference has a document. -/
theorem License.WellFormed.isReference_of_document {l : License}
    (hl : l.WellFormed) (h : l.document ≠ none) : l.isReference = true := by
  unfold License.WellFormed at hl
  split at hl
  case isTrue href => exact href
  case isFalse => exact absurd hl.1 h

/-- There is no `+` in an id string. -/
theorem IsIdString.getElem?_ne_plus {id : String} (hid : IsIdString id)
    (i : Nat) : id.toList[i]? ≠ some '+' := by
  intro h
  have hplus := hid.2 '+' (List.mem_of_getElem? h)
  cases hplus

/-- A `+` stands in the id of a license only at the end, and only where the
license is no reference. -/
theorem License.WellFormed.eq_of_plus {l : License} (hl : l.WellFormed)
    {i : Nat} (h : l.id.toList[i]? = some '+') :
    i + 1 = l.id.length ∧ l.isReference = false := by
  unfold License.WellFormed at hl
  split at hl
  case isTrue => exact absurd h (hl.1.getElem?_ne_plus i)
  case isFalse href =>
    refine ⟨?_, by simpa using href⟩
    obtain ⟨-, hid | ⟨stem, hstem, hid⟩, -⟩ := hl
    · exact absurd h (hid.getElem?_ne_plus i)
    · rw [hid, String.toList_append] at h
      rw [hid, String.length_append]
      -- inside of the stem there is none, and behind it there is one
      -- character
      rcases Nat.lt_or_ge i stem.toList.length with hlt | hge
      · rw [List.getElem?_append_left hlt] at h
        exact absurd h (hstem.getElem?_ne_plus i)
      · have hi := (List.getElem?_eq_some_iff.1 h).1
        rw [List.length_append, String.length_toList] at hi
        rw [String.length_toList] at hge
        have hplus : "+".toList.length = 1 := rfl
        have hplus' : "+".length = 1 := rfl
        omega

-- ==================================================== at an offset

/-- The part of a text between two offsets. -/
def slice (text : String) (start stop : Nat) : String :=
  String.ofList ((text.toList.take stop).drop start)

/-- Where licenses end that start at an offset. -/
def licenseEnds (text : String) (start : Nat) : Set Nat :=
  { stop | stop ≤ text.length ∧ IsLicenseText (slice text start stop) }

section Slices

variable {text : String} {start stop : Nat}

/-- What is ahead of an offset is the slice up to another one and what is
ahead of that. -/
theorem drop_eq_slice (h : start ≤ stop) :
    text.toList.drop start
      = (slice text start stop).toList ++ text.toList.drop stop := by
  rw [slice, String.toList_ofList, List.drop_take,
    ← Nat.add_sub_of_le h, ← List.drop_drop, Nat.add_sub_cancel_left,
    List.take_append_drop]

/-- A slice is as long as its offsets are apart. -/
theorem length_slice (h : stop ≤ text.length) :
    (slice text start stop).toList.length = stop - start := by
  rw [slice, String.toList_ofList, List.length_drop, List.length_take,
    String.length_toList, Nat.min_eq_left h]

/-- Slices that meet make one. -/
theorem slice_append (h : start ≤ stop) :
    slice text 0 start ++ slice text start stop = slice text 0 stop := by
  rw [← String.toList_inj]
  simp only [slice, String.toList_append, String.toList_ofList,
    List.drop_zero]
  conv => rhs; rw [← List.take_append_drop start (text.toList.take stop)]
  rw [List.take_take, Nat.min_eq_left h]

/-- Only what lies between two offsets in their order is not empty. -/
theorem lt_of_slice_ne_nil (h : (slice text start stop).toList ≠ []) :
    start < stop := by
  rw [slice, String.toList_ofList] at h
  have hpos := List.length_pos_iff.2 h
  rw [List.length_drop, List.length_take] at hpos
  omega

/-- Every value is read off a beginning of the text that is not empty. -/
def Recognizer.Splits {α : Type} (recognize : Recognizer α) : Prop :=
  ∀ {cs value rest}, recognize cs = some (value, rest) →
    ∃ read, read ≠ [] ∧ cs = read ++ rest

/-- A value is read between two offsets of a text exactly if it is read off
what is ahead of the first one and what is ahead of the second one is
left. -/
theorem Recognizer.at_eq_some_iff {α : Type} {recognize : Recognizer α}
    {value : α} (hsplits : recognize.Splits) :
    recognize.at text start = some (stop, value) ↔
      start < stop ∧ stop ≤ text.length
        ∧ recognize (text.toList.drop start)
          = some (value, text.toList.drop stop) := by
  constructor
  · intro h
    obtain ⟨⟨value', rest⟩, hread, hfound⟩ := Option.map_eq_some_iff.1 h
    simp only [Prod.mk.injEq] at hfound
    obtain ⟨rfl, rfl⟩ := hfound
    obtain ⟨read, hne, hahead⟩ := hsplits hread
    have hlength := congrArg List.length hahead
    rw [List.length_drop, List.length_append, String.length_toList]
      at hlength
    have hpos := List.length_pos_iff.2 hne
    rw [hread, hahead, List.length_append, Nat.add_sub_cancel,
      ← List.drop_drop, hahead, List.drop_left]
    exact ⟨by omega, by omega, rfl⟩
  · rintro ⟨hlt, hstop, hread⟩
    have hlength : start + ((text.toList.drop start).length
        - (text.toList.drop stop).length) = stop := by
      rw [List.length_drop, List.length_drop, String.length_toList]
      omega
    rw [Recognizer.at, hread, Option.map_some]
    exact congrArg (fun n => some (n, value)) hlength

/-- What is read off what is ahead of an offset is read at the offset. -/
theorem Recognizer.exists_at {α : Type} {recognize : Recognizer α}
    {value : α} {rest : List Char} (hsplits : recognize.Splits)
    (h : recognize (text.toList.drop start) = some (value, rest)) :
    ∃ stop, recognize.at text start = some (stop, value)
      ∧ stop ≤ text.length ∧ rest = text.toList.drop stop := by
  have hat : recognize.at text start
      = some (start + ((text.toList.drop start).length - rest.length),
        value) := by
    rw [Recognizer.at, h, Option.map_some]
  obtain ⟨-, hstop, hread⟩ := (at_eq_some_iff hsplits).1 hat
  rw [h] at hread
  exact ⟨_, hat, hstop, (Prod.mk.inj (Option.some.inj hread)).2⟩

/-- No license is empty. -/
theorem lt_of_isLicenseText (h : IsLicenseText (slice text start stop)) :
    start < stop := by
  obtain ⟨l, hl, htext⟩ := isLicenseText_iff.1 h
  obtain ⟨c, tail, hct, -⟩ := hl.ahead
  rw [htext] at hct
  exact lt_of_slice_ne_nil (by rw [hct]; exact List.cons_ne_nil c tail)

/-- A license is read off the beginning of a text. -/
theorem license_splits : license.Splits := by
  intro cs l rest h
  obtain ⟨hcs, hl⟩ := license_sound h
  obtain ⟨c, tail, hct, -⟩ := hl.ahead
  exact ⟨l.text.toList, by rw [hct]; exact List.cons_ne_nil c tail, hcs⟩

/-- What is read at an offset is the slice up to where the reading stops. -/
theorem license_at_sound {l : License}
    (h : license.at text start = some (stop, l)) :
    l.WellFormed ∧ l.text = slice text start stop ∧ stop ≤ text.length
      ∧ license (text.toList.drop start)
        = some (l, text.toList.drop stop) := by
  obtain ⟨hlt, hstop, hread⟩ := (at_eq_some_iff license_splits).1 h
  obtain ⟨hahead, hl⟩ := license_sound hread
  rw [drop_eq_slice (Nat.le_of_lt hlt)] at hahead
  exact ⟨hl, String.toList_inj.1 (List.append_cancel_right hahead).symm,
    hstop, hread⟩

/-- No license that starts at the offset ends behind the one that is
read. -/
theorem isGreatest_stop {l : License}
    (h : license.at text start = some (stop, l)) :
    IsGreatest (licenseEnds text start) stop := by
  obtain ⟨hl, htext, hstop, hread⟩ := license_at_sound h
  constructor
  · exact ⟨hstop, isLicenseText_iff.2 ⟨l, hl, htext⟩⟩
  · rintro other ⟨hother, hlicense⟩
    have hlt := lt_of_isLicenseText hlicense
    obtain ⟨l', hl', htext'⟩ := isLicenseText_iff.1 hlicense
    obtain ⟨l'', rest, hread', hle⟩ :=
      license_reaches hl' (text.toList.drop other)
    -- both are read off what is ahead of the offset, so they are the same
    rw [htext', ← drop_eq_slice (Nat.le_of_lt hlt), hread] at hread'
    cases hread'
    rw [List.length_drop, List.length_drop, String.length_toList] at hle
    omega

end Slices

/-- At an offset, which may lie behind the end, no license is read exactly
if no identifier character stands there. Otherwise the license is read that
goes farthest: the longest slice from there on that is a reference or a bare
id. The slice is the text of the license; it is a reference if and only if
the license is one; only then there can be a document; and a `+` stands in
the id at most at its end, and not in that of a reference. -/
theorem license_longest_match (text : String) (start : Nat) :
    (license.at text start = none
      ↔ ∀ c, text.toList[start]? = some c → isIdChar c = false)
    ∧ ∀ stop l, license.at text start = some (stop, l) →
      IsGreatest (licenseEnds text start) stop
      ∧ l.text = slice text start stop
      ∧ (l.isReference = true ↔ IsReference (slice text start stop))
      ∧ (l.document ≠ none → l.isReference = true)
      ∧ ∀ i : Nat, l.id.toList[i]? = some '+' →
        i + 1 = l.id.length ∧ l.isReference = false := by
  constructor
  · rw [Recognizer.at, Option.map_eq_none_iff, license_eq_none_iff]
    unfold NotAhead
    rw [List.head?_drop]
    rfl
  · intro stop l h
    obtain ⟨hl, htext, -, -⟩ := license_at_sound h
    refine ⟨isGreatest_stop h, htext, ?_, hl.isReference_of_document,
      fun i => hl.eq_of_plus⟩
    rw [← htext]
    exact hl.isReference_iff

/-- The qualifier has no reference behind it, so the license is read again
from the beginning, as a bare id. -/
example : license.at "DocumentRef-a:LicenseRef-" 0
    = some (13, ⟨"DocumentRef-a", none, false⟩) := by decide

end LicenseExpr
