/-
What operations are about.

An operation can be given an expression or a text, and either can be come by
in several ways. A text that is to be an expression is read at the default
depth, and so there may be no expression.
-/
import LicenseExpr.Draft.Render
import LicenseExpr.Draft.Tokens
import LicenseExpr.Fault
import LicenseExpr.Operand

namespace LicenseExpr

/-- What an operation is about: an expression or a text, and how it is come
by. -/
inductive Subject where
  /-- The expression that a text is. -/
  | read (text : CodePoints)
  /-- A tree as it is. -/
  | tree (tree : Expr)
  /-- The expression that a text is, in its facade. -/
  | facade (text : CodePoints)
  /-- A tree put into a facade. -/
  | wrapped (tree : Expr)
  /-- A text as it is. -/
  | text (text : String)

/-- The operand that a subject is. -/
def Subject.operand (stack : Stack) :
    Subject → Logged CodePoints (Except (ParseError CodePoints) Operand)
  | read t =>
      return (← Expr.parse t defaultMaxDepth stack).map Operand.tree
  | tree root => return .ok (.tree root)
  | facade t =>
      return (← Expr.parse t defaultMaxDepth stack).map Operand.facade
  | wrapped root => return .ok (.facade root)
  | text t => return .ok (.text t)

/-- The expression that an operand holds, a text being read first. -/
def Operand.expr (stack : Stack) :
    Operand → Logged CodePoints (Except (ParseError CodePoints) Expr)
  | tree root => return .ok root
  | facade root => return .ok root
  | text t => Expr.parse (Text.points t) defaultMaxDepth stack

/-- The expression that a subject holds, a text being read first. -/
def Subject.expr (stack : Stack) (subject : Subject) :
    Logged CodePoints (Except (ParseError CodePoints) Expr) := do
  match ← subject.operand stack with
  | .ok operand => operand.expr stack
  | .error error => return .error error

/-- The operands of subjects, where they have one. -/
def Subject.operands (stack : Stack) :
    List Subject → Logged CodePoints (List (Option Operand))
  | [] => return []
  | subject :: subjects => do
      let operand ← subject.operand stack
      return operand.toOption :: (← Subject.operands stack subjects)

/-- The licenses of a draft. A text in place of a whole draft is read first,
and any other foreign value in its place has none. -/
def Draft.findLicenses (stack : Stack) :
    Draft Value → Logged String (Except Fault (List String))
  | .foreign (.text text) =>
      return (← Expr.parse text defaultMaxDepth stack).map
        Draft.licenses |>.mapError .ofReading
  | .foreign value =>
      return .error (.raised (.noMember value.typeName "root"))
  | draft => return .ok draft.licenses

end LicenseExpr
