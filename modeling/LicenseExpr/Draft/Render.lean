/-
The two texts of a draft: the one an expression is written in, and the
literal that shows how its tree is put together.

Expression text adds no parentheses of its own, so it shows the grouping of
a tree only where the tree holds it in nodes. The literal shows every node,
and which characters of a text do not show there can be chosen.

A foreign value that is a text is taken for text by both, where it stands as
an operand. Any other foreign value has no place in expression text, and
`render` answers the first of them in reading order; the literal shows it.
An error about such a value has to name it, by its literal, and if it has
none, then what comes up instead is reported in place of that error.
-/
import LicenseExpr.Draft.Style
import LicenseExpr.Value

namespace LicenseExpr

/-- What is known of values that are no expressions: which of them are
texts, and the literal and the text of each, or what comes up instead. -/
class Foreign (α : Type) where
  text? : α → Option String
  literal : (hidden : Char → Bool) → α → Except Raised String
  plain : (hidden : Char → Bool) → α → Except Raised String

instance : Foreign Value where
  text?
    | .text text => some text
    | _ => none
  literal := Value.literal
  plain := Value.plain

/-- The error about a value that stands where it has no place. -/
def Foreign.refusal {α : Type} [Foreign α] (hidden : Char → Bool)
    (value : α) : Raised :=
  match literal hidden value with
  | .ok name => .notAnExpression name
  | .error raised => raised

namespace Style

variable {α ε : Type}

/-- Expression text. -/
def expression (foreign : α → Except ε String) : Style α ε where
  license := License.text
  withException l exception := l.text ++ " WITH " ++ exception
  and := { between := " AND " }
  or := { between := " OR " }
  parens := { opening := "(", closing := ")" }
  foreign

/-- The document that a reference points into, if there is one. -/
def documentLiteral (hidden : Char → Bool) : Option String → String
  | some document => Text.quoted hidden document
  | none => Value.nullLiteral

/-- A license with the names of its parts, where the characters of the class
`hidden` do not show. -/
def licenseLiteral (hidden : Char → Bool) (l : License) : String :=
  "SimpleExpression(identifier=" ++ Text.quoted hidden l.id
    ++ ", document_ref=" ++ documentLiteral hidden l.document
    ++ ", license_ref=" ++ Value.boolLiteral l.isReference ++ ")"

/-- Nodes with the names of their parts, where the characters of the class
`hidden` do not show. -/
def literal (foreign : α → Except ε String) (hidden : Char → Bool) :
    Style α ε where
  license := licenseLiteral hidden
  withException l exception :=
    "WithExpression(license=" ++ licenseLiteral hidden l
      ++ ", exception=" ++ Text.quoted hidden exception ++ ")"
  and := { opening := "And(left=", between := ", right=", closing := ")" }
  or := { opening := "Or(left=", between := ", right=", closing := ")" }
  parens := { opening := "Parens(inner=", closing := ")" }
  foreign

end Style

/-- What cannot be refused is there. -/
def accepted {α : Type} : Except Empty α → α
  | .ok a => a

/-- The literal of a facade that shows a text. -/
def inFacade (hidden : Char → Bool) (text : String) : String :=
  "SPDXExpression(" ++ Text.quoted hidden text ++ ")"

namespace Expr

/-- The text of an expression. -/
def render (expr : Expr) : String :=
  accepted (expr.write (Style.expression nofun))

/-- The literal of an expression, where the characters of the class `hidden`
do not show. -/
def literal (expr : Expr) (hidden : Char → Bool := Text.isHidden) : String :=
  accepted (expr.write (Style.literal nofun hidden))

/-- The literal of an expression in its facade, which shows its text. -/
def facadeLiteral (expr : Expr) (hidden : Char → Bool := Text.isHidden) :
    String :=
  inFacade hidden expr.render

end Expr

namespace Draft

variable {α : Type} [Foreign α]

/-- Texts pass for text, other values are refused. -/
def textOnly (value : α) : Except α String :=
  match Foreign.text? value with
  | some text => .ok text
  | none => .error value

/-- The text of a draft, or the foreign value that it cannot be written for.
A foreign value that is the whole draft is refused even if it is a text. -/
def render : Draft α → Except α String
  | foreign value => .error value
  | draft => draft.write (Style.expression textOnly)

/-- The text of a draft, or the error about the foreign value that it cannot
be written for. -/
def rendered (draft : Draft α) (hidden : Char → Bool := Text.isHidden) :
    Except Raised String :=
  draft.render.mapError (Foreign.refusal hidden)

/-- The text of a draft in which a foreign value that is the whole draft
stands for itself. -/
def display (draft : Draft α) (hidden : Char → Bool := Text.isHidden) :
    Except Raised String :=
  match draft with
  | foreign value => Foreign.plain hidden value
  | draft => draft.rendered hidden

/-- The literal of a draft. Texts in it stand there as they are, unless they
are the whole draft. -/
def literal (draft : Draft α) (hidden : Char → Bool := Text.isHidden) :
    Except Raised String :=
  match draft with
  | foreign value => Foreign.literal hidden value
  | draft =>
      let shown (value : α) : Except Raised String :=
        match Foreign.text? value with
        | some text => .ok text
        | none => Foreign.literal hidden value
      draft.write (Style.literal shown hidden)

/-- The text of a draft in a facade. -/
def facadeDisplay (draft : Draft α)
    (hidden : Char → Bool := Text.isHidden) : Except Raised String :=
  draft.rendered hidden

/-- The literal of a draft in a facade. -/
def facadeLiteral (draft : Draft α)
    (hidden : Char → Bool := Text.isHidden) : Except Raised String :=
  (draft.rendered hidden).map (inFacade hidden)

end Draft

end LicenseExpr
