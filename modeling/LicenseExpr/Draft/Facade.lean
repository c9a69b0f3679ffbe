/-
Facades among the operands of a draft.

A facade holds a whole expression, but it is no node of a tree, and where it
stands for an operand it is as foreign as any other value. Its literal shows
the text of the tree in it; so a facade that was put around a tree with
foreign values has no literal, and an error about the facade cannot be made:
the one about the value in the tree comes up instead.
-/
import LicenseExpr.Draft.Render

namespace LicenseExpr

/-- What may stand for an operand without being an expression: a value, or a
facade around a tree that may hold such things in turn. -/
inductive Outsider where
  | value (value : Value)
  | facade (root : Draft Outsider)

/-- What a draft shows of a foreign value: the text that it is, if it is
one, and its literal and its text. -/
structure Appearance where
  text? : Option String
  literal : Except Raised String
  plain : Except Raised String

instance : Foreign Appearance where
  text? := Appearance.text?
  literal _ := Appearance.literal
  plain _ := Appearance.plain

mutual

/-- What a draft shows of an outsider. -/
def Outsider.appearance (hidden : Char → Bool) : Outsider → Appearance
  | .value value =>
      ⟨Foreign.text? value, value.literal hidden, value.plain hidden⟩
  | .facade root =>
      let shown := root.appearances hidden
      ⟨none, shown.facadeLiteral hidden, shown.facadeDisplay hidden⟩

/-- A draft with what it shows of its foreign values in their places. -/
def Draft.appearances (hidden : Char → Bool) :
    Draft Outsider → Draft Appearance
  | .license l => .license l
  | .withException l exception => .withException l exception
  | .and left right =>
      .and (left.appearances hidden) (right.appearances hidden)
  | .or left right =>
      .or (left.appearances hidden) (right.appearances hidden)
  | .parens inner => .parens (inner.appearances hidden)
  | .foreign outsider => .foreign (outsider.appearance hidden)

end

instance : Foreign Outsider where
  text?
    | .value value => Foreign.text? value
    | .facade _ => none
  literal hidden outsider := (outsider.appearance hidden).literal
  plain hidden outsider := (outsider.appearance hidden).plain

end LicenseExpr
