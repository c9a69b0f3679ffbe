/-
License expressions as trees.

A draft is a tree of licenses joined by AND and OR, with the parentheses
that its author wrote kept as nodes of their own. It may hold, where an
operand should stand, a value of a type `α` that is no expression at all:
that is how a tree put together by hand can go wrong. An expression is a
draft in which no such value is possible.

The type keeps every shape that can be built, also those that have no text
of their own because AND binds tighter than OR and both group to the left.
-/
import LicenseExpr.License

namespace LicenseExpr

/-- A license expression in which values of type `α` may stand where an
operand should. -/
inductive Draft (α : Type) where
  /-- A single license. -/
  | license (license : License)
  /-- A license together with an exception to it. -/
  | withException (license : License) (exception : String)
  /-- Both operands apply. -/
  | and (left right : Draft α)
  /-- Either operand may be chosen. -/
  | or (left right : Draft α)
  /-- Grouping written by the author. -/
  | parens (inner : Draft α)
  /-- Something that is no expression. -/
  | foreign (value : α)
deriving DecidableEq

/-- A license expression: a draft with nothing foreign in it. -/
abbrev Expr : Type := Draft Empty

namespace Draft

variable {α : Type}

/-- How deep parentheses stand in parentheses. -/
def nesting : Draft α → Nat
  | license _ => 0
  | withException _ _ => 0
  | and left right => max left.nesting right.nesting
  | or left right => max left.nesting right.nesting
  | parens inner => inner.nesting + 1
  | foreign _ => 0

end Draft

end LicenseExpr
