/-
Writing a draft, by recursion on its tree.

The walk over a stack of pieces and the recursion below write the same text,
and where a style refuses a foreign value they refuse the same one: the walk
takes a draft off its stack in the order in which the recursion visits it.
So what is proved about the text of a draft is proved about the recursion.

For expressions nothing is refused, and the text of a node is made from the
texts of its operands. These equations are all that the rest needs to know
about writing.
-/
import LicenseExpr.Draft.Render

namespace LicenseExpr

namespace Draft

variable {α ε : Type}

/-- Two texts, or what is refused first, in the frame of a node. -/
def joined (frame : Frame) (left right : Except ε String) :
    Except ε String := do
  let first ← left
  let second ← right
  return frame.opening ++ first ++ frame.between ++ second ++ frame.closing

/-- The text of a draft in a style, or what the style refuses first in
reading order. -/
def written (style : Style α ε) : Draft α → Except ε String
  | license l => .ok (style.license l)
  | withException l exception => .ok (style.withException l exception)
  | and left right =>
      joined style.and (left.written style) (right.written style)
  | or left right =>
      joined style.or (left.written style) (right.written style)
  | parens inner => do
      let text ← inner.written style
      return style.parens.opening ++ text ++ style.parens.closing
  | foreign value => style.foreign value

/-- The walk takes a draft off its stack by writing it, and goes on with the
rest of the stack; where the draft is refused, the walk ends. -/
def WritesDraft (style : Style α ε) (draft : Draft α) : Prop :=
  ∀ before stack, writeStack style before (.draft draft :: stack)
    = (draft.written style).bind fun text =>
        writeStack style (before ++ text) stack

/-- A node with two operands is written as its frame with their texts in it,
if both are. -/
theorem writeStack_joined {style : Style α ε} {left right : Draft α}
    (hleft : left.WritesDraft style) (hright : right.WritesDraft style)
    (frame : Frame) (before : String) (stack : List (Piece α)) :
    writeStack style before
        (.text frame.opening :: .draft left :: .text frame.between
          :: .draft right :: .text frame.closing :: stack)
      = (joined frame (left.written style) (right.written style)).bind
          fun text => writeStack style (before ++ text) stack := by
  rw [writeStack, hleft]
  cases left.written style with
  | error refusal => rfl
  | ok first =>
      show writeStack style _ (.text _ :: .draft right :: _) = _
      rw [writeStack, hright]
      cases right.written style with
      | error refusal => rfl
      | ok second =>
          show writeStack style _ (.text _ :: stack)
            = writeStack style (before ++ (frame.opening ++ first
              ++ frame.between ++ second ++ frame.closing)) stack
          rw [writeStack]
          simp only [String.append_assoc]

/-- The walk writes every draft, in the order of the recursion. -/
theorem writeStack_draft (style : Style α ε) (draft : Draft α) :
    draft.WritesDraft style := by
  induction draft with
  | license l => intro before stack; rw [writeStack]; rfl
  | withException l exception => intro before stack; rw [writeStack]; rfl
  | and left right ihl ihr =>
      intro before stack
      rw [writeStack]
      exact writeStack_joined ihl ihr style.and before stack
  | or left right ihl ihr =>
      intro before stack
      rw [writeStack]
      exact writeStack_joined ihl ihr style.or before stack
  | parens inner ih =>
      intro before stack
      rw [writeStack, writeStack, ih, written]
      cases inner.written style with
      | error refusal => rfl
      | ok text =>
          show writeStack style _ (.text _ :: stack)
            = writeStack style (before ++ (style.parens.opening ++ text
              ++ style.parens.closing)) stack
          rw [writeStack]
          simp only [String.append_assoc]
  | foreign value =>
      intro before stack
      rw [writeStack, written]
      cases style.foreign value <;> rfl

/-- The walk and the recursion write the same. -/
theorem write_eq_written (style : Style α ε) (draft : Draft α) :
    draft.write style = draft.written style := by
  rw [write, writeStack_draft]
  cases draft.written style with
  | error refusal => rfl
  | ok text =>
      show writeStack style ("" ++ text) [] = _
      rw [writeStack, String.empty_append]

end Draft

-- ============================================ the text of an expression

namespace Expr

/-- What an expression is written as by recursion is its text. -/
theorem written_eq_render (t : Expr) :
    t.written (Style.expression (nofun : Empty → Except Empty String))
      = .ok t.render := by
  rw [render, Draft.write_eq_written]
  cases t.written (Style.expression nofun) with
  | error refusal => exact refusal.elim
  | ok text => rfl

@[simp] theorem render_license (l : License) :
    render (.license l) = l.text :=
  (Except.ok.inj (written_eq_render (.license l))).symm

@[simp] theorem render_withException (l : License) (exception : String) :
    render (.withException l exception) = l.text ++ " WITH " ++ exception :=
  (Except.ok.inj (written_eq_render (.withException l exception))).symm

@[simp] theorem render_and (left right : Expr) :
    render (.and left right) = left.render ++ " AND " ++ right.render := by
  have h := written_eq_render (.and left right)
  rw [Draft.written, written_eq_render, written_eq_render] at h
  have h := Except.ok.inj h
  rw [← h]
  simp [Style.expression]

@[simp] theorem render_or (left right : Expr) :
    render (.or left right) = left.render ++ " OR " ++ right.render := by
  have h := written_eq_render (.or left right)
  rw [Draft.written, written_eq_render, written_eq_render] at h
  have h := Except.ok.inj h
  rw [← h]
  simp [Style.expression]

@[simp] theorem render_parens (inner : Expr) :
    render (.parens inner) = "(" ++ inner.render ++ ")" := by
  have h := written_eq_render (.parens inner)
  rw [Draft.written, written_eq_render] at h
  exact (Except.ok.inj h).symm

end Expr

end LicenseExpr
