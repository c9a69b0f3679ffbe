/-
The words of expression text: ids, single licenses and operators.

A recognizer reads one thing off the front of a text, or declines. It sees
only the text in front of it, so what it answers cannot depend on what came
before, and declining costs nothing: the caller still holds the text and
tries the next alternative. Every recognizer here takes the longest run it
can, and what it leaves is strictly shorter than what it was given.

`Recognizer.at` turns a recognizer into one that works at an offset of a
whole text and answers the offset where it stopped.
-/
import LicenseExpr.Text.Class
import LicenseExpr.License

namespace LicenseExpr

open Text

/-- Reads a value off the front of a text, and answers it with the text
that is left. -/
abbrev Recognizer (α : Type) : Type := List Char → Option (α × List Char)

/-- Every value is read off at least one character. -/
def Recognizer.Consumes {α : Type} (recognize : Recognizer α) : Prop :=
  ∀ {cs value rest}, recognize cs = some (value, rest) →
    rest.length < cs.length

/-- Runs a recognizer at an offset, which may lie past the end of the text,
and answers the offset after what was read. -/
def Recognizer.at {α : Type} (recognize : Recognizer α) (text : String)
    (start : Nat) : Option (Nat × α) :=
  let ahead := text.toList.drop start
  (recognize ahead).map fun (value, rest) =>
    (start + (ahead.length - rest.length), value)

namespace Recognizer

-- ========================================================== ids

/-- An id string: the longest run of identifier characters, if it is not
empty. -/
def idString : Recognizer String := fun cs =>
  match cs.takeWhile isIdChar with
  | [] => none
  | run => some (String.ofList run, cs.dropWhile isIdChar)

/-- A bare id: an id string and, if one follows, the `+` that means "or any
later version". -/
def bareId : Recognizer String := fun cs => do
  let (id, rest) ← idString cs
  match rest with
  | '+' :: rest => some (id ++ "+", rest)
  | _ => some (id, rest)

/-- The qualifier that points into another document: the document's mark,
an id string and a colon. Its value is the id alone. -/
def documentQualifier : Recognizer String := fun cs => do
  let marked ← after? documentMark.toList cs
  let (document, rest) ← idString marked
  match rest with
  | ':' :: rest => some (document, rest)
  | _ => none

/-- A reference: a qualifier if there is one, the mark of a reference and
an id string. A qualifier that no reference follows is no reference. -/
def reference : Recognizer (Option String × String) := fun cs =>
  let (document, unqualified) :=
    match documentQualifier cs with
    | some (document, rest) => (some document, rest)
    | none => (none, cs)
  match after? referenceMark.toList unqualified with
  | none => none
  | some marked =>
      (idString marked).map fun (id, rest) => ((document, id), rest)

/-- A single license. A reference comes first, because its mark is made of
identifier characters and would pass for the beginning of a bare id. -/
def license : Recognizer License := fun cs =>
  match reference cs with
  | some ((document, id), rest) =>
      some (⟨id, document, true⟩, rest)
  | none => (bareId cs).map fun (id, rest) => (⟨id, none, false⟩, rest)

-- ==================================================== operators

/-- Any number of blanks, none included. -/
def blanks : Recognizer Unit := fun cs => some ((), skipBlanks cs)

/-- The operator `word`, in any mixture of ASCII cases, with at least one
blank on either side. The blanks on both sides are read with it. -/
def operator (word : String) : Recognizer Unit
  | [] => none
  | c :: ahead =>
      if isBlank c then
        match afterAnyCase? word.toList (skipBlanks ahead) with
        | some (d :: rest) =>
            if isBlank d then some ((), skipBlanks rest) else none
        | _ => none
      else none

/-- The exception to a license: the operator WITH and an id string that
looks neither like a reference nor like a qualifier. -/
def exception : Recognizer String := fun cs => do
  let ((), ahead) ← operator "WITH" cs
  let (id, rest) ← idString ahead
  if documentMark.toList.isPrefixOf id.toList
      || referenceMark.toList.isPrefixOf id.toList then none
  else some (id, rest)

-- ====================================================== lengths

theorem idString_consumes : idString.Consumes := by
  intro cs value rest h
  cases cs with
  | nil => simp [idString] at h
  | cons c cs =>
      by_cases hc : isIdChar c = true
      · simp only [idString, List.takeWhile_cons, hc, if_pos,
          List.dropWhile_cons, Option.some.injEq, Prod.mk.injEq] at h
        have := length_dropWhile_le isIdChar cs
        simp only [← h.2, List.length_cons]
        omega
      · simp [idString, hc] at h

theorem bareId_consumes : bareId.Consumes := by
  intro cs value rest h
  simp only [bareId, Option.bind_eq_bind, Option.bind_eq_some_iff] at h
  obtain ⟨⟨id, ahead⟩, hid, h⟩ := h
  have hlt := idString_consumes hid
  split at h
  · rename_i more hmore
    simp only at hmore
    simp only [Option.some.injEq, Prod.mk.injEq] at h
    simp only [← h.2, hmore, List.length_cons] at hlt ⊢
    omega
  · simp only [Option.some.injEq, Prod.mk.injEq] at h
    simpa only [← h.2] using hlt

theorem documentQualifier_consumes : documentQualifier.Consumes := by
  intro cs value rest h
  simp only [documentQualifier, Option.bind_eq_bind,
    Option.bind_eq_some_iff] at h
  obtain ⟨marked, hmark, ⟨id, ahead⟩, hid, h⟩ := h
  have hlt := idString_consumes hid
  have hlen := length_of_after? hmark
  split at h
  · rename_i more hmore
    simp only at hmore
    simp only [Option.some.injEq, Prod.mk.injEq] at h
    simp only [← h.2, hmore, List.length_cons] at hlt ⊢
    omega
  · simp at h

theorem reference_consumes : reference.Consumes := by
  intro cs value rest h
  obtain ⟨document, unqualified, hle, h⟩ :
      ∃ (document : Option String) (unqualified : List Char),
        unqualified.length ≤ cs.length ∧
        (match after? referenceMark.toList unqualified with
          | none => none
          | some marked =>
              (idString marked).map fun (id, rest) => ((document, id), rest))
          = some (value, rest) := by
    cases hq : documentQualifier cs with
    | none =>
        exact ⟨none, cs, Nat.le_refl _, by simpa [reference, hq] using h⟩
    | some q =>
        exact ⟨some q.1, q.2, Nat.le_of_lt (documentQualifier_consumes hq),
          by simpa [reference, hq] using h⟩
  split at h
  · simp at h
  · rename_i marked hmark
    have hlen := length_of_after? hmark
    simp only [Option.map_eq_some_iff] at h
    obtain ⟨⟨id, left⟩, hid, h⟩ := h
    have hlt := idString_consumes hid
    simp only [Prod.mk.injEq] at h
    simp only [← h.2]
    omega

theorem license_consumes : license.Consumes := by
  intro cs value rest h
  simp only [license] at h
  split at h
  · rename_i hr
    simp only [Option.some.injEq, Prod.mk.injEq] at h
    simpa only [← h.2] using reference_consumes hr
  · simp only [Option.map_eq_some_iff] at h
    obtain ⟨⟨id, left⟩, hid, h⟩ := h
    simp only [Prod.mk.injEq] at h
    simpa only [← h.2] using bareId_consumes hid

theorem operator_consumes (word : String) : (operator word).Consumes := by
  intro cs value rest h
  cases cs with
  | nil => simp [operator] at h
  | cons c ahead =>
      simp only [operator] at h
      split at h
      · split at h
        · rename_i d left hw
          have hlen := length_of_afterAnyCase? hw
          have hskip := length_skipBlanks_le ahead
          split at h
          · have := length_skipBlanks_le left
            simp only [Option.some.injEq, Prod.mk.injEq] at h
            simp only [← h.2, List.length_cons] at hlen ⊢
            omega
          · simp at h
        · simp at h
      · simp at h

theorem exception_consumes : exception.Consumes := by
  intro cs value rest h
  simp only [exception, Option.bind_eq_bind, Option.bind_eq_some_iff] at h
  obtain ⟨⟨⟨⟩, ahead⟩, hop, ⟨id, left⟩, hid, h⟩ := h
  have hlt : left.length < ahead.length := idString_consumes hid
  have := operator_consumes "WITH" hop
  split at h
  · simp at h
  · simp only [Option.some.injEq, Prod.mk.injEq] at h
    simp only [← h.2]
    omega

end Recognizer

end LicenseExpr
