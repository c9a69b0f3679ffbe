/-
The words of expression text as sets of texts: id strings, bare ids and
the licenses that text can name.

A recognizer takes the longest run it can, so what it answers depends on
the text behind the run as well. The lemmas here say which texts a
recognizer takes apart and how: every answer puts the text together again
(soundness), and a word in front of a text that does not go on with it is
read as that word (completeness).

# References and bare ids

The mark of a reference is made of identifier characters, so a bare id may
look like one. `MarksReference` is the exact overlap: the mark and one more
identifier character. A bare id that does not mark a reference is read as
itself, because neither the qualifier nor the mark can be found in it.
-/
import LicenseExpr.Recognizer

namespace LicenseExpr

open Text

-- ================================================= what stands ahead

section Runs

-- Of characters, and of code points where texts may hold surrogates.
variable {α : Type}

/-- No character of the class `p` stands in front of the text. -/
def NotAhead (p : α → Bool) (cs : List α) : Prop :=
  ∀ c ∈ cs.head?, p c = false

variable {p : α → Bool} {run run' rest rest' cs : List α}

@[simp] theorem notAhead_nil : NotAhead p [] := by
  simp [NotAhead]

@[simp] theorem notAhead_cons {c : α} :
    NotAhead p (c :: cs) ↔ p c = false := by
  simp [NotAhead]

/-- In front of a text that is not empty stands its own first character. -/
theorem notAhead_append (hne : run ≠ []) :
    NotAhead p (run ++ rest) ↔ NotAhead p run := by
  cases run with
  | nil => exact absurd rfl hne
  | cons c run => simp

/-- A character of a class is none that the class leaves out. -/
theorem ne_of_class {c d : α} (hd : p d = false) (hc : p c = true) :
    c ≠ d := by
  intro h
  rw [h, hd] at hc
  cases hc

/-- A narrower class stands ahead less often. -/
theorem NotAhead.imp {q : α → Bool} (h : NotAhead q cs)
    (hpq : ∀ c, p c = true → q c = true) : NotAhead p cs := by
  intro c hc
  have hq := h c hc
  cases hp : p c with
  | false => rfl
  | true => rw [hpq c hp] at hq; cases hq

/-- What is left when a run is dropped does not go on with it. -/
theorem notAhead_dropWhile (p : α → Bool) (cs : List α) :
    NotAhead p (cs.dropWhile p) := by
  intro c hc
  have h := List.head?_dropWhile_not p cs
  rw [Option.mem_def] at hc
  rw [hc] at h
  exact h

/-- A run that does not go on is all that is taken. -/
theorem takeWhile_run (hrun : ∀ c ∈ run, p c = true)
    (hrest : NotAhead p rest) : (run ++ rest).takeWhile p = run := by
  rw [List.takeWhile_append_of_pos hrun]
  cases rest with
  | nil => simp
  | cons c rest =>
      rw [notAhead_cons] at hrest
      simp [hrest]

/-- Behind a run that does not go on is all that is left. -/
theorem dropWhile_run (hrun : ∀ c ∈ run, p c = true)
    (hrest : NotAhead p rest) : (run ++ rest).dropWhile p = rest := by
  rw [List.dropWhile_append_of_pos hrun]
  cases rest with
  | nil => rfl
  | cons c rest =>
      rw [notAhead_cons] at hrest
      simp [hrest]

/-- A text is a longest run of a class and a rest in one way only. -/
theorem run_unique (h : run ++ rest = run' ++ rest')
    (hrun : ∀ c ∈ run, p c = true) (hrun' : ∀ c ∈ run', p c = true)
    (hrest : NotAhead p rest) (hrest' : NotAhead p rest') :
    run = run' ∧ rest = rest' := by
  constructor
  · rw [← takeWhile_run hrun hrest, h, takeWhile_run hrun' hrest']
  · rw [← dropWhile_run hrun hrest, h, dropWhile_run hrun' hrest']

end Runs

/-- What stands after `lead` is what is left when it is taken off. -/
theorem after?_eq_some_iff {lead cs rest : List Char} :
    after? lead cs = some rest ↔ cs = lead ++ rest := by
  induction lead generalizing cs with
  | nil => simp [after?]
  | cons l lead ih =>
      cases cs with
      | nil => simp [after?]
      | cons c cs =>
          by_cases hc : c = l
          · simp [after?, hc, ih]
          · simp [after?, hc]

-- ======================================================== id strings

/-- An id string: identifier characters, one at least. -/
def IsIdString (id : String) : Prop :=
  id.toList ≠ [] ∧ ∀ c ∈ id.toList, isIdChar c = true

instance (id : String) : Decidable (IsIdString id) :=
  decidable_of_iff (id.toList ≠ [] ∧ id.toList.all isIdChar = true)
    (and_congr Iff.rfl List.all_eq_true)

namespace Recognizer

/-- An id string is found exactly where one stands and does not go on. -/
theorem idString_eq_some_iff {cs rest : List Char} {id : String} :
    idString cs = some (id, rest) ↔
      cs = id.toList ++ rest ∧ IsIdString id ∧ NotAhead isIdChar rest := by
  constructor
  · intro h
    unfold idString at h
    split at h
    · cases h
    · rename_i run hne
      simp only [Option.some.injEq, Prod.mk.injEq] at h
      obtain ⟨rfl, rfl⟩ := h
      rw [IsIdString, String.toList_ofList]
      refine ⟨List.takeWhile_append_dropWhile.symm, ⟨hne, ?_⟩,
        notAhead_dropWhile _ _⟩
      intro c hc
      exact List.all_eq_true.1 List.all_takeWhile c hc
  · intro h
    obtain ⟨rfl, ⟨hne, hrun⟩, hrest⟩ := h
    unfold idString
    rw [takeWhile_run hrun hrest, dropWhile_run hrun hrest]
    split
    · rename_i h; exact absurd h hne
    · rw [String.ofList_toList]

/-- No id string is found exactly where no identifier character stands. -/
theorem idString_eq_none_iff {cs : List Char} :
    idString cs = none ↔ NotAhead isIdChar cs := by
  cases cs with
  | nil => simp [idString]
  | cons c cs =>
      rw [notAhead_cons]
      cases hc : isIdChar c <;> simp [idString, hc]

end Recognizer

-- ========================================================== licenses

/-- The mark of a reference and one more identifier character. -/
def MarksReference (id : String) : Prop :=
  ∃ c tail, id.toList = referenceMark.toList ++ c :: tail
    ∧ isIdChar c = true

/-- A bare id: an id string, possibly with the `+` for later versions, that
does not mark a reference. -/
def IsBareId (id : String) : Prop :=
  (IsIdString id ∨ ∃ stem, IsIdString stem ∧ id = stem ++ "+")
    ∧ ¬ MarksReference id

/-- A license that text can name: a reference made of id strings, or a bare
id that no document qualifies. -/
def License.WellFormed (l : License) : Prop :=
  if l.isReference then
    IsIdString l.id ∧ ∀ document ∈ l.document, IsIdString document
  else l.document = none ∧ IsBareId l.id

/-- The characters that licenses are written with. -/
def isLicenseChar (c : Char) : Bool := isIdChar c || c == '+' || c == ':'

theorem isLicenseChar_of_isIdChar {c : Char} (h : isIdChar c = true) :
    isLicenseChar c = true := by
  simp [isLicenseChar, h]

theorem NotAhead.isIdChar {cs : List Char} (h : NotAhead isLicenseChar cs) :
    NotAhead isIdChar cs :=
  h.imp fun _ => isLicenseChar_of_isIdChar

theorem toList_text_reference (id : String) (document : Option String) :
    (License.text ⟨id, document, true⟩).toList
      = (match document with
          | some d => documentMark.toList ++ d.toList ++ [':']
          | none => [])
        ++ referenceMark.toList ++ id.toList := by
  cases document <;> simp [License.text]

@[simp] theorem text_bare (id : String) :
    License.text ⟨id, none, false⟩ = id := by
  simp [License.text]

namespace Recognizer

variable {cs rest : List Char}

/-- A qualifier is found exactly where the mark of a document, an id string
and a colon stand. -/
theorem documentQualifier_eq_some_iff {document : String} :
    documentQualifier cs = some (document, rest) ↔
      cs = documentMark.toList ++ document.toList ++ ':' :: rest
        ∧ IsIdString document := by
  have hcolon : NotAhead isIdChar (':' :: rest) :=
    notAhead_cons.2 rfl
  simp only [documentQualifier, Option.bind_eq_bind,
    Option.bind_eq_some_iff, after?_eq_some_iff]
  constructor
  · intro h
    obtain ⟨marked, rfl, ⟨id, behind⟩, hid, h⟩ := h
    obtain ⟨rfl, hstring, -⟩ := idString_eq_some_iff.1 hid
    split at h
    · rename_i hbehind
      simp only [Option.some.injEq, Prod.mk.injEq] at h
      obtain ⟨rfl, rfl⟩ := h
      simp only at hbehind
      subst hbehind
      exact ⟨by rw [List.append_assoc], hstring⟩
    · cases h
  · intro h
    obtain ⟨rfl, hstring⟩ := h
    refine ⟨document.toList ++ ':' :: rest, by rw [List.append_assoc],
      (document, ':' :: rest),
      idString_eq_some_iff.2 ⟨rfl, hstring, hcolon⟩, rfl⟩

/-- The part of a reference behind its qualifier: the mark of a reference
and an id string. -/
def markedId : Recognizer String := fun cs =>
  (after? referenceMark.toList cs).bind idString

/-- The marked id is found exactly where the mark and an id string stand that
does not go on. -/
theorem markedId_eq_some_iff {id : String} :
    markedId cs = some (id, rest) ↔
      cs = referenceMark.toList ++ id.toList ++ rest
        ∧ IsIdString id ∧ NotAhead isIdChar rest := by
  simp only [markedId, Option.bind_eq_some_iff, after?_eq_some_iff]
  constructor
  · intro h
    obtain ⟨marked, rfl, hid⟩ := h
    obtain ⟨rfl, hstring, hrest⟩ := idString_eq_some_iff.1 hid
    exact ⟨by rw [List.append_assoc], hstring, hrest⟩
  · intro h
    obtain ⟨rfl, hstring, hrest⟩ := h
    exact ⟨id.toList ++ rest, by rw [List.append_assoc],
      idString_eq_some_iff.2 ⟨rfl, hstring, hrest⟩⟩

/-- Behind a qualifier a reference is the marked id there. -/
theorem reference_of_qualified {document : String}
    (h : documentQualifier cs = some (document, rest)) :
    reference cs
      = (markedId rest).map fun (id, rest) => ((some document, id), rest) := by
  simp only [reference, h, markedId]
  cases after? referenceMark.toList rest <;> rfl

/-- Without a qualifier a reference is the marked id in front. -/
theorem reference_of_unqualified (h : documentQualifier cs = none) :
    reference cs
      = (markedId cs).map fun (id, rest) => ((none, id), rest) := by
  simp only [reference, h, markedId]
  cases after? referenceMark.toList cs <;> rfl

/-- No qualifier stands where the mark of a reference does: the two marks
differ in their first letter. -/
theorem documentQualifier_referenceMark :
    documentQualifier (referenceMark.toList ++ cs) = none := by
  rfl

/-- What is read as a reference puts the text together again. -/
theorem reference_sound {document : Option String} {id : String}
    (h : reference cs = some ((document, id), rest)) :
    cs = (License.text ⟨id, document, true⟩).toList ++ rest
      ∧ IsIdString id ∧ (∀ d ∈ document, IsIdString d)
      ∧ NotAhead isIdChar rest := by
  rw [toList_text_reference]
  cases hq : documentQualifier cs with
  | some q =>
      rw [reference_of_qualified hq] at h
      simp only [Option.map_eq_some_iff, Prod.mk.injEq, Prod.exists] at h
      obtain ⟨id, rest, hid, ⟨rfl, rfl⟩, rfl⟩ := h
      obtain ⟨rfl, hd⟩ := documentQualifier_eq_some_iff.1 hq
      obtain ⟨hbehind, hstring, hrest⟩ := markedId_eq_some_iff.1 hid
      exact ⟨by simp [hbehind], hstring, by simpa using hd, hrest⟩
  | none =>
      rw [reference_of_unqualified hq] at h
      simp only [Option.map_eq_some_iff, Prod.mk.injEq, Prod.exists] at h
      obtain ⟨id, rest, hid, ⟨rfl, rfl⟩, rfl⟩ := h
      obtain ⟨rfl, hstring, hrest⟩ := markedId_eq_some_iff.1 hid
      exact ⟨by simp, hstring, by simp, hrest⟩

/-- A reference made of id strings is read where it stands and does not go on.
-/
theorem reference_complete {document : Option String} {id : String}
    (hid : IsIdString id) (hdocument : ∀ d ∈ document, IsIdString d)
    (hrest : NotAhead isIdChar rest) :
    reference ((License.text ⟨id, document, true⟩).toList ++ rest)
      = some ((document, id), rest) := by
  have hmarked : markedId (referenceMark.toList ++ id.toList ++ rest)
      = some (id, rest) :=
    markedId_eq_some_iff.2 ⟨rfl, hid, hrest⟩
  rw [toList_text_reference]
  cases document with
  | some d =>
      have hq : documentQualifier (documentMark.toList ++ d.toList
          ++ ':' :: (referenceMark.toList ++ id.toList ++ rest))
          = some (d, referenceMark.toList ++ id.toList ++ rest) :=
        documentQualifier_eq_some_iff.2 ⟨rfl, hdocument d rfl⟩
      have h := reference_of_qualified hq
      rw [hmarked] at h
      simpa using h
  | none =>
      have hq : documentQualifier
          (referenceMark.toList ++ (id.toList ++ rest)) = none :=
        documentQualifier_referenceMark
      rw [← List.append_assoc] at hq
      have h := reference_of_unqualified hq
      rw [hmarked] at h
      simpa using h

/-- A bare id is found exactly where an id string stands, and a `+` behind
it belongs to it. -/
theorem bareId_eq_some_iff {id : String} :
    bareId cs = some (id, rest) ↔
      ∃ stem, IsIdString stem
        ∧ (id = stem ++ "+" ∧ cs = stem.toList ++ '+' :: rest
          ∨ id = stem ∧ cs = stem.toList ++ rest
            ∧ NotAhead isIdChar rest ∧ NotAhead (· == '+') rest) := by
  have hplus {rest : List Char} : NotAhead isIdChar ('+' :: rest) :=
    notAhead_cons.2 rfl
  simp only [bareId, Option.bind_eq_bind, Option.bind_eq_some_iff]
  constructor
  · intro h
    obtain ⟨⟨stem, behind⟩, hstem, h⟩ := h
    obtain ⟨rfl, hstring, hbehind⟩ := idString_eq_some_iff.1 hstem
    refine ⟨stem, hstring, ?_⟩
    split at h
    · rename_i more hmore
      simp only at hmore
      simp only [Option.some.injEq, Prod.mk.injEq] at h
      obtain ⟨rfl, rfl⟩ := h
      exact Or.inl ⟨rfl, by rw [hmore]⟩
    · rename_i hnone
      simp only [Option.some.injEq, Prod.mk.injEq] at h
      obtain ⟨rfl, rfl⟩ := h
      refine Or.inr ⟨rfl, rfl, hbehind, ?_⟩
      cases behind with
      | nil => simp
      | cons c behind =>
          rw [notAhead_cons]
          have hne : c ≠ '+' := fun hc => hnone behind (by rw [hc])
          simpa using hne
  · intro h
    obtain ⟨stem, hstring, ⟨rfl, rfl⟩ | ⟨rfl, rfl, hid, hlater⟩⟩ := h
    · exact ⟨(stem, '+' :: rest),
        idString_eq_some_iff.2 ⟨rfl, hstring, hplus⟩, rfl⟩
    · refine ⟨(id, rest), idString_eq_some_iff.2 ⟨rfl, hstring, hid⟩, ?_⟩
      split
      · rename_i more hmore
        simp only at hmore
        rw [hmore, notAhead_cons] at hlater
        cases hlater
      · rfl

/-- What is read as a bare id puts the text together again. -/
theorem bareId_sound {id : String} (h : bareId cs = some (id, rest)) :
    cs = id.toList ++ rest
      ∧ (IsIdString id ∨ ∃ stem, IsIdString stem ∧ id = stem ++ "+") := by
  obtain ⟨stem, hstring, ⟨rfl, rfl⟩ | ⟨rfl, rfl, -, -⟩⟩ :=
    bareId_eq_some_iff.1 h
  · exact ⟨by simp, Or.inr ⟨stem, hstring, rfl⟩⟩
  · exact ⟨rfl, Or.inl hstring⟩

/-- Where the mark of a reference and one more identifier character stand, a
reference is found. -/
theorem reference_ne_none {c : Char} (tail : List Char)
    (hc : isIdChar c = true) :
    reference (referenceMark.toList ++ c :: tail) ≠ none := by
  rw [reference_of_unqualified documentQualifier_referenceMark]
  intro h
  rw [Option.map_eq_none_iff, markedId,
    after?_eq_some_iff.2 rfl, Option.bind_some, idString_eq_none_iff,
    notAhead_cons, hc] at h
  cases h

theorem documentMark_run :
    ∀ c ∈ documentMark.toList, isIdChar c = true :=
  List.all_eq_true.1 (by decide)

theorem referenceMark_run :
    ∀ c ∈ referenceMark.toList, isIdChar c = true :=
  List.all_eq_true.1 (by decide)

/-- A text of identifier characters with no further one and no colon behind
it begins with no reference, unless it marks one. -/
theorem reference_run (run behind : List Char)
    (hrun : ∀ c ∈ run, isIdChar c = true)
    (hmark : ¬ MarksReference (String.ofList run))
    (hbehind : NotAhead isIdChar behind)
    (hcolon : NotAhead (· == ':') behind) :
    reference (run ++ behind) = none := by
  have hq : documentQualifier (run ++ behind) = none := by
    cases hq : documentQualifier (run ++ behind) with
    | none => rfl
    | some q =>
        obtain ⟨h, -, hd⟩ := documentQualifier_eq_some_iff.1 hq
        obtain ⟨-, rfl⟩ := run_unique h hrun
          (List.forall_mem_append.2 ⟨documentMark_run, hd⟩) hbehind
          (notAhead_cons.2 rfl)
        rw [notAhead_cons] at hcolon
        cases hcolon
  rw [reference_of_unqualified hq, Option.map_eq_none_iff]
  cases hm : markedId (run ++ behind) with
  | none => rfl
  | some m =>
      obtain ⟨h, ⟨hne, hid⟩, hrest⟩ := markedId_eq_some_iff.1 hm
      obtain ⟨rfl, -⟩ := run_unique h hrun
        (List.forall_mem_append.2 ⟨referenceMark_run, hid⟩) hbehind hrest
      obtain ⟨c, tail, hct⟩ := List.exists_cons_of_ne_nil hne
      refine absurd ⟨c, tail, ?_, ?_⟩ hmark
      · rw [String.toList_ofList, hct]
      · exact hid c (by rw [hct]; exact List.mem_cons_self ..)

/-- Marking a reference shows in the id string alone. -/
theorem marksReference_append {stem : String}
    (h : MarksReference stem) (later : String) :
    MarksReference (stem ++ later) := by
  obtain ⟨c, tail, hstem, hc⟩ := h
  exact ⟨c, tail ++ later.toList, by simp [hstem], hc⟩

/-- Behind an id string with a `+` no reference can go on. -/
theorem reference_later {stem : String} (hstem : IsIdString stem)
    (hmark : ¬ MarksReference (stem ++ "+")) (rest : List Char) :
    reference ((stem ++ "+").toList ++ rest) = none := by
  have h := reference_run _ ('+' :: rest) hstem.2
    (by rw [String.ofList_toList]
        exact fun h => hmark (marksReference_append h "+"))
    (notAhead_cons.2 rfl) (notAhead_cons.2 rfl)
  simpa using h

theorem reference_bareId {id : String} (hid : IsBareId id)
    (hrest : NotAhead isLicenseChar rest) :
    reference (id.toList ++ rest) = none := by
  obtain ⟨hstring | ⟨stem, hstem, rfl⟩, hmark⟩ := hid
  · refine reference_run _ _ hstring.2 (by rwa [String.ofList_toList])
      hrest.isIdChar (hrest.imp fun c hc => ?_)
    simp_all [isLicenseChar]
  · exact reference_later hstem hmark rest

-- ================================================= a single license

/-- What is read as a license puts the text together again, and is a license
that text can name. -/
theorem license_sound {l : License} (h : license cs = some (l, rest)) :
    cs = l.text.toList ++ rest ∧ l.WellFormed := by
  simp only [license] at h
  split at h
  · rename_i document id behind hr
    simp only [Option.some.injEq, Prod.mk.injEq] at h
    obtain ⟨rfl, rfl⟩ := h
    obtain ⟨hcs, hid, hdocument, -⟩ := reference_sound hr
    exact ⟨hcs, by simpa [License.WellFormed] using ⟨hid, hdocument⟩⟩
  · rename_i hr
    simp only [Option.map_eq_some_iff, Prod.mk.injEq, Prod.exists] at h
    obtain ⟨id, behind, hid, rfl, rfl⟩ := h
    obtain ⟨rfl, hshape⟩ := bareId_sound hid
    have hmark : ¬ MarksReference id := by
      intro h
      obtain ⟨c, tail, htext, hc⟩ := h
      refine reference_ne_none (tail ++ behind) hc ?_
      rw [htext, List.append_assoc] at hr
      exact hr
    exact ⟨by rw [text_bare], by
      simpa [License.WellFormed] using ⟨hshape, hmark⟩⟩

/-- A license that text can name is read from its text, wherever no license
character follows. -/
theorem license_complete {l : License} (hl : l.WellFormed)
    (hrest : NotAhead isLicenseChar rest) :
    license (l.text.toList ++ rest) = some (l, rest) := by
  obtain ⟨id, document, isReference⟩ := l
  cases isReference with
  | true =>
      obtain ⟨hid, hdocument⟩ : IsIdString id
          ∧ ∀ d ∈ document, IsIdString d := by
        simpa [License.WellFormed] using hl
      simp only [license, reference_complete hid hdocument hrest.isIdChar]
  | false =>
      obtain ⟨rfl, hid⟩ : document = none ∧ IsBareId id := by
        simpa [License.WellFormed] using hl
      have hbare : bareId (id.toList ++ rest) = some (id, rest) := by
        rw [bareId_eq_some_iff]
        rcases hid.1 with hstring | ⟨stem, hstem, rfl⟩
        · exact ⟨id, hstring, Or.inr ⟨rfl, rfl, hrest.isIdChar,
            hrest.imp fun c hc => by simp_all [isLicenseChar]⟩⟩
        · exact ⟨stem, hstem, Or.inl ⟨rfl, by simp⟩⟩
      rw [text_bare]
      simp only [license, reference_bareId hid hrest, hbare,
        Option.map_some]

end Recognizer

-- =============================================== the text of a license

/-- An id string begins with an identifier character. -/
theorem IsIdString.ahead {id : String} (h : IsIdString id) :
    ∃ c tail, id.toList = c :: tail ∧ isIdChar c = true := by
  obtain ⟨c, tail, hct⟩ := List.exists_cons_of_ne_nil h.1
  exact ⟨c, tail, hct, h.2 c (by rw [hct]; exact List.mem_cons_self ..)⟩

/-- The text of a license begins with an identifier character. -/
theorem License.WellFormed.ahead {l : License} (h : l.WellFormed) :
    ∃ c tail, l.text.toList = c :: tail ∧ isIdChar c = true := by
  obtain ⟨id, document, isReference⟩ := l
  cases isReference with
  | true =>
      rw [toList_text_reference]
      cases document with
      | some d => exact ⟨'D', _, rfl, rfl⟩
      | none => exact ⟨'L', _, rfl, rfl⟩
  | false =>
      obtain ⟨rfl, hshape, -⟩ : document = none ∧ IsBareId id := by
        simpa [License.WellFormed] using h
      rw [text_bare]
      rcases hshape with hid | ⟨stem, hid, rfl⟩
      · exact hid.ahead
      · obtain ⟨c, tail, hstem, hc⟩ := hid.ahead
        exact ⟨c, tail ++ ['+'], by simp [hstem], hc⟩

theorem IsIdString.chars {id : String} (h : IsIdString id) :
    ∀ c ∈ id.toList, isLicenseChar c = true :=
  fun c hc => isLicenseChar_of_isIdChar (h.2 c hc)

/-- The text of a license is made of license characters. -/
theorem License.WellFormed.chars {l : License} (h : l.WellFormed) :
    ∀ c ∈ l.text.toList, isLicenseChar c = true := by
  obtain ⟨id, document, isReference⟩ := l
  cases isReference with
  | true =>
      obtain ⟨hid, hdocument⟩ : IsIdString id
          ∧ ∀ d ∈ document, IsIdString d := by
        simpa [License.WellFormed] using h
      have hreference := fun c hc =>
        isLicenseChar_of_isIdChar (Recognizer.referenceMark_run c hc)
      have hmark := fun c hc =>
        isLicenseChar_of_isIdChar (Recognizer.documentMark_run c hc)
      rw [toList_text_reference]
      simp only [List.forall_mem_append]
      refine ⟨⟨?_, hreference⟩, hid.chars⟩
      cases document with
      | none => simp
      | some d =>
          simp only [List.forall_mem_append]
          refine ⟨⟨hmark, (hdocument d rfl).chars⟩, ?_⟩
          exact List.all_eq_true.1 (by decide)
  | false =>
      obtain ⟨rfl, hshape, -⟩ : document = none ∧ IsBareId id := by
        simpa [License.WellFormed] using h
      rw [text_bare]
      rcases hshape with hid | ⟨stem, hid, rfl⟩
      · exact hid.chars
      · rw [String.toList_append, List.forall_mem_append]
        exact ⟨hid.chars, List.all_eq_true.1 (by decide)⟩

/-- Where no identifier character stands there is no license. -/
theorem Recognizer.license_eq_none {cs : List Char}
    (h : NotAhead isIdChar cs) : license cs = none := by
  cases hl : license cs with
  | none => rfl
  | some found =>
      obtain ⟨rfl, hwell⟩ := license_sound hl
      obtain ⟨c, tail, hct, hc⟩ := hwell.ahead
      rw [hct, List.cons_append, notAhead_cons, hc] at h
      cases h

end LicenseExpr
