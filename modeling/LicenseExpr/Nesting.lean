/-
How deep parentheses may stand in parentheses.

Every level of parentheses costs four frames of the call stack, and two
hundred frames are kept for whoever asks. So the number of frames limits
the depth that may be asked for: settings that ask for more are refused,
and a reading that asks for more is held to the limit.

That limit takes for granted that whoever asks has used no more than was
kept free. Where the stack is deep already, or where another limit is
imposed on readings, it may run out before the limit is reached.
-/

namespace LicenseExpr

/-- The call stack that a reading has. -/
structure Stack where
  frames : Int := 1000
  /-- A limit on the depth of readings, in place of the one that follows
  from the stack. -/
  imposed : Option Int := none
  /-- How many levels of an expression the stack still bears, the one
  outside all parentheses included. If there is no number, it bears as many
  as there are. -/
  room : Option Nat := none
deriving DecidableEq

/-- The depth that holds where none is asked for. -/
def defaultMaxDepth : Int := 100

namespace Stack

/-- The greatest depth that the stack allows, which is one at least. -/
def depthLimit (stack : Stack) : Int := max 1 ((stack.frames - 200) / 4)

/-- The greatest depth that a reading may have. -/
def readingLimit (stack : Stack) : Int :=
  stack.imposed.getD stack.depthLimit

/-- How many levels of parentheses a reading may open that is asked for
`maxDepth`, if the stack bears a reading at all. -/
def levels (stack : Stack) (maxDepth : Int) : Nat :=
  let depth := (min maxDepth stack.readingLimit).toNat
  match stack.room with
  | none => depth
  | some room => min depth (room - 1)

/-- Whether the stack bears an expression with so many levels of
parentheses. -/
def bears (stack : Stack) (depth : Nat) : Bool :=
  match stack.room with
  | none => true
  | some room => depth < room

end Stack

end LicenseExpr
