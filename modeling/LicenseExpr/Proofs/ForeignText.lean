/-
Foreign texts in a draft, and which foreign value a draft is refused for.

A draft that is a foreign value as a whole is refused for it, whatever it
is. Where a foreign value stands for an operand, it is refused unless it is
a text: a text is written as it is, just as a bare id would be. So rendering
a draft is rendering it with its foreign texts taken for ids (`adopted`),
and of the foreign values only those count that are no texts.

It follows when a draft is refused for the first of its foreign values. A
text comes first and is passed over, unless it is the whole draft.
-/
import LicenseExpr.Proofs.Refusal

namespace LicenseExpr

namespace Draft

variable {α : Type} [Foreign α]

/-- Whether a foreign value is no text. -/
def isNoText (value : α) : Bool := (Foreign.text? value).isNone

@[simp] theorem isNoText_iff {value : α} :
    isNoText value = true ↔ Foreign.text? value = none :=
  Option.isNone_iff_eq_none

/-- A draft with every foreign text taken for a bare id. -/
def adopted : Draft α → Draft α
  | license l => license l
  | withException l exception => withException l exception
  | and left right => and left.adopted right.adopted
  | or left right => or left.adopted right.adopted
  | parens inner => parens inner.adopted
  | foreign value =>
      match Foreign.text? value with
      | some id => license ⟨id, none, false⟩
      | none => foreign value

/-- The foreign values that are no texts stay, in the same order. -/
theorem foreigners_adopted (t : Draft α) :
    t.adopted.foreigners = t.foreigners.filter isNoText := by
  induction t with
  | license l => rfl
  | withException l exception => rfl
  | and left right ihl ihr =>
      rw [adopted, foreigners, foreigners, List.filter_append, ihl, ihr]
  | or left right ihl ihr =>
      rw [adopted, foreigners, foreigners, List.filter_append, ihl, ihr]
  | parens inner ih => exact ih
  | foreign value =>
      rw [adopted, foreigners, List.filter_cons, isNoText]
      cases Foreign.text? value <;> rfl

/-- A foreign text is written like the id it is taken for. -/
theorem written_adopted (t : Draft α) :
    t.adopted.written (Style.expression textOnly)
      = t.written (Style.expression textOnly) := by
  induction t with
  | license l => rfl
  | withException l exception => rfl
  | and left right ihl ihr => rw [adopted, written, written, ihl, ihr]
  | or left right ihl ihr => rw [adopted, written, written, ihl, ihr]
  | parens inner ih => rw [adopted, written, written, ih]
  | foreign value =>
      rw [adopted]
      cases htext : Foreign.text? value with
      | none => rfl
      | some id =>
          show Except.ok (License.text ⟨id, none, false⟩) = textOnly value
          rw [← leafText_eq, textOnly, htext]
          rfl

section Rendering

variable {t : Draft α}

/-- A draft that is no foreign value as a whole is rendered as if its foreign
texts were ids. -/
theorem render_eq_written_adopted (h : ∀ value, t ≠ .foreign value) :
    t.render = t.adopted.written (Style.expression textOnly) := by
  rw [written_adopted, ← write_eq_written]
  cases t with
  | foreign value => exact absurd rfl (h value)
  | _ => rfl

/-- What is left among the foreign values is no text. -/
theorem text?_of_mem_adopted {value : α}
    (h : value ∈ t.adopted.foreigners) : Foreign.text? value = none := by
  rw [foreigners_adopted, List.mem_filter] at h
  exact isNoText_iff.1 h.2

/-- It is refused for the first foreign value that is no text. -/
theorem render_eq_error_of_adopted (h : ∀ value, t ≠ .foreign value)
    {first : α} {others : List α}
    (hforeign : t.adopted.foreigners = first :: others) :
    t.render = .error first := by
  rw [render_eq_written_adopted h]
  exact written_eq_error hforeign (textOnly_eq_error
    (text?_of_mem_adopted (hforeign ▸ List.mem_cons_self)))

/-- It has a text where all its foreign values are texts. -/
theorem render_eq_ok_of_adopted (h : ∀ value, t ≠ .foreign value)
    (hforeign : t.adopted.foreigners = []) :
    t.render = .ok t.adopted.text := by
  rw [render_eq_written_adopted h]
  exact written_eq_text textOnly hforeign

/-- A draft is refused for the first of its foreign values if that is the
whole draft or no text, and otherwise not. -/
theorem render_eq_error_first_iff {first : α} {others : List α}
    (hforeign : t.foreigners = first :: others) :
    t.render = .error first
      ↔ t = .foreign first ∨ Foreign.text? first = none := by
  by_cases hwhole : ∃ value, t = .foreign value
  · obtain ⟨value, rfl⟩ := hwhole
    obtain rfl : value = first := (List.cons.inj hforeign).1
    exact iff_of_true rfl (.inl rfl)
  · have h : ∀ value, t ≠ .foreign value := fun value ht => hwhole ⟨value, ht⟩
    constructor
    · intro hrender
      refine .inr ?_
      cases hadopted : t.adopted.foreigners with
      | nil =>
          rw [render_eq_ok_of_adopted h hadopted] at hrender
          cases hrender
      | cons refused rest =>
          rw [render_eq_error_of_adopted h hadopted] at hrender
          cases hrender
          exact text?_of_mem_adopted (hadopted ▸ List.mem_cons_self)
    · rintro (rfl | hfirst)
      · rfl
      · have hadopted : t.adopted.foreigners
            = first :: others.filter isNoText := by
          rw [foreigners_adopted, hforeign,
            List.filter_cons_of_pos (isNoText_iff.2 hfirst)]
        exact render_eq_error_of_adopted h hadopted

end Rendering

end Draft

/-- A draft that is a foreign value is refused for it. Of any other draft
the foreign values that are texts are written as they are: it is refused for
the first foreign value that is no text, and has a text if there is none,
that of the draft with ids in their place. So of the drafts with foreign
values those are refused for the first one which are that value or have no
text there, and the others are not. Who is refused is told the name of the
value, or what comes up in place of the name. -/
theorem render_refuses_first_but_texts {α : Type} [Foreign α]
    (hidden : Char → Bool) (t : Draft α) :
    (∀ value, t = .foreign value → t.render = .error value)
    ∧ ((∀ value, t ≠ .foreign value) →
      (∀ refused others,
        t.foreigners.filter Draft.isNoText = refused :: others →
        t.render = .error refused)
      ∧ ((∀ value ∈ t.foreigners, Foreign.text? value ≠ none) →
        t.render = .ok t.adopted.text))
    ∧ (∀ first others, t.foreigners = first :: others →
      (t.render = .error first
        ↔ t = .foreign first ∨ Foreign.text? first = none))
    ∧ (∀ text, t.render = .ok text → t.rendered hidden = .ok text)
    ∧ ∀ refused, t.render = .error refused →
      (∀ name, Foreign.literal hidden refused = .ok name →
        t.rendered hidden
          = .error ⟨"TypeError", "not an SPDX expression node: " ++ name⟩)
      ∧ ∀ raised, Foreign.literal hidden refused = .error raised →
        t.rendered hidden = .error raised := by
  refine ⟨fun value h => h ▸ rfl, fun h => ⟨fun refused others hforeign => ?_,
    fun htexts => ?_⟩, fun first others => Draft.render_eq_error_first_iff,
    fun text h => ?_, fun refused h =>
    ⟨fun name => Draft.rendered_of_literal_ok h,
      fun raised => Draft.rendered_of_literal_error h⟩⟩
  · rw [← Draft.foreigners_adopted] at hforeign
    exact Draft.render_eq_error_of_adopted h hforeign
  · refine Draft.render_eq_ok_of_adopted h ?_
    rw [Draft.foreigners_adopted, List.filter_eq_nil_iff]
    exact fun value hvalue hnone =>
      htexts value hvalue (Draft.isNoText_iff.1 hnone)
  · rw [Draft.rendered, h]
    rfl

/-- A text in the place of an operand is written as it is, though it is the
only foreign value of the draft, and though it is refused on its own. -/
theorem render_text_for_operand :
    let t : Draft Value :=
      .and (.foreign (.text "MIT")) (.license ⟨"ISC", none, false⟩)
    t.foreigners = [.text "MIT"]
      ∧ t.rendered = .ok "MIT AND ISC"
      ∧ Draft.rendered (.foreign (Value.text "MIT"))
        = .error ⟨"TypeError", "not an SPDX expression node: 'MIT'"⟩ := by
  intro t
  have hwhole : ∀ value, t ≠ .foreign value := fun _ => nofun
  refine ⟨rfl, ?_, rfl⟩
  rw [Draft.rendered, Draft.render_eq_ok_of_adopted hwhole rfl]
  rfl

end LicenseExpr
