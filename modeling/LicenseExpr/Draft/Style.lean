/-
Writing a draft as text, in a style.

A style says how a license is written, what stands before, between and
after the operands of a node, and what becomes of a foreign value: some
text, or a refusal. One walk serves every style. It keeps what is still to
be written on a stack of pieces, in reading order, so that a tree of any
depth is written in one loop, and the first foreign value that the style
refuses, in reading order, is the one reported.
-/
import LicenseExpr.Draft

namespace LicenseExpr

/-- What stands before, between and after the operands of a node. -/
structure Frame where
  opening : String := ""
  between : String := ""
  closing : String := ""
deriving DecidableEq

/-- A way of writing drafts with foreign values of type `α`, which refuses
with an `ε`. -/
structure Style (α ε : Type) where
  license : License → String
  withException : License → String → String
  and : Frame
  or : Frame
  parens : Frame
  foreign : α → Except ε String

namespace Draft

variable {α ε : Type}

/-- What the walk has still to write: a text as it is, or a draft. -/
inductive Piece (α : Type) where
  | text (text : String)
  | draft (draft : Draft α)

/-- How many steps the walk takes for a draft: one for the node itself and
one for each text in its frame. -/
def steps : Draft α → Nat
  | license _ => 1
  | withException _ _ => 1
  | and left right => left.steps + right.steps + 4
  | or left right => left.steps + right.steps + 4
  | parens inner => inner.steps + 3
  | foreign _ => 1

/-- How many steps the walk takes for a stack. -/
def stackSteps : List (Piece α) → Nat
  | [] => 0
  | .text _ :: stack => stackSteps stack + 1
  | .draft draft :: stack => draft.steps + stackSteps stack

/-- Writes the pieces of a stack, from the top down, after `written`. -/
def writeStack (style : Style α ε) (written : String) :
    List (Piece α) → Except ε String
  | [] => .ok written
  | .text text :: stack => writeStack style (written ++ text) stack
  | .draft (license l) :: stack =>
      writeStack style (written ++ style.license l) stack
  | .draft (withException l exception) :: stack =>
      writeStack style (written ++ style.withException l exception) stack
  | .draft (and left right) :: stack =>
      writeStack style written
        (.text style.and.opening :: .draft left :: .text style.and.between
          :: .draft right :: .text style.and.closing :: stack)
  | .draft (or left right) :: stack =>
      writeStack style written
        (.text style.or.opening :: .draft left :: .text style.or.between
          :: .draft right :: .text style.or.closing :: stack)
  | .draft (parens inner) :: stack =>
      writeStack style written
        (.text style.parens.opening :: .draft inner
          :: .text style.parens.closing :: stack)
  | .draft (foreign value) :: stack =>
      match style.foreign value with
      | .ok text => writeStack style (written ++ text) stack
      | .error refusal => .error refusal
termination_by stack => stackSteps stack
decreasing_by all_goals simp only [stackSteps, steps]; omega

/-- A draft in a given style. -/
def write (style : Style α ε) (draft : Draft α) : Except ε String :=
  writeStack style "" [.draft draft]

end Draft

end LicenseExpr
