/-
The literal of an expression shows the whole tree: it is put together node by
node, and no two expressions have the same.

# What is shown

The walk over a stack of pieces comes to what the recursion puts together
from the literals of the operands (`construction`), with the name of the node
and of its parts around them.

# Where it ends

The texts in a tree can hold anything, also what looks like the rest of a
literal. But each part of a literal tells where it ends, whatever stands
behind it: a name is always the same, a text ends with its quote, and what
stands for a missing document or for a flag differs in its first character
from what could stand there instead. So the parts can be taken off a literal
from the front, one after the other (`EndsItself`).
-/
import LicenseExpr.Proofs.Escapes
import LicenseExpr.Proofs.Writing

namespace LicenseExpr

open Text

variable {hidden : Char → Bool} {rest rest' : List Char}

-- ============================================================== licenses

namespace Style

/-- The two flags differ in the first character. -/
theorem flagLiteral_unique {a b : Bool}
    (h : (Value.boolLiteral a).toList ++ rest
      = (Value.boolLiteral b).toList ++ rest') : a = b ∧ rest = rest' := by
  cases a <;> cases b <;> simp [Value.boolLiteral] at h
  · exact ⟨rfl, h⟩
  · exact ⟨rfl, h⟩

/-- What stands for a document that is missing is not quoted. -/
theorem quoted_ne_null (document : String) :
    (quoted hidden document).toList ++ rest
      ≠ Value.nullLiteral.toList ++ rest' := by
  have hquote : quoteFor (Script.points document) ≠ 'N' :=
    (isQuote_quoteFor _).ne (by decide) (by decide)
  rw [toList_quoted]
  simp [Value.nullLiteral, hquote]

/-- A document is shown as a text, and a missing one is not. -/
theorem documentLiteral_unique {a b : Option String}
    (h : (documentLiteral hidden a).toList ++ rest
      = (documentLiteral hidden b).toList ++ rest') :
    a = b ∧ rest = rest' := by
  cases a with
  | none =>
      cases b with
      | none => exact ⟨rfl, List.append_cancel_left h⟩
      | some b => exact absurd h.symm (quoted_ne_null b)
  | some a =>
      cases b with
      | none => exact absurd h (quoted_ne_null a)
      | some b =>
          obtain ⟨rfl, hrest⟩ := quotedString_unique h
          exact ⟨rfl, hrest⟩

/-- A license is shown with all that it is made of. -/
theorem licenseLiteral_unique {a b : License}
    (h : (licenseLiteral hidden a).toList ++ rest
      = (licenseLiteral hidden b).toList ++ rest') :
    a = b ∧ rest = rest' := by
  obtain ⟨id, document, isReference⟩ := a
  obtain ⟨id', document', isReference'⟩ := b
  unfold licenseLiteral at h
  simp only [String.toList_append, List.append_assoc] at h
  -- part by part from the front: a name that is the same on both sides, then
  -- what stands behind it
  have hid := List.append_cancel_left h
  obtain ⟨rfl, hdocument⟩ := quotedString_unique hid
  have hdocument := List.append_cancel_left hdocument
  obtain ⟨rfl, hflag⟩ := documentLiteral_unique hdocument
  have hflag := List.append_cancel_left hflag
  obtain ⟨rfl, hclosing⟩ := flagLiteral_unique hflag
  exact ⟨rfl, List.append_cancel_left hclosing⟩

end Style

-- =========================================================== expressions

namespace Expr

/-- The literal of an expression, by recursion on its tree: each node by its
name, with the names and the literals of its parts. -/
def construction (hidden : Char → Bool) : Expr → String
  | .license l => Style.licenseLiteral hidden l
  | .withException l exception =>
      "WithExpression(license=" ++ Style.licenseLiteral hidden l
        ++ ", exception=" ++ quoted hidden exception ++ ")"
  | .and left right =>
      "And(left=" ++ construction hidden left ++ ", right="
        ++ construction hidden right ++ ")"
  | .or left right =>
      "Or(left=" ++ construction hidden left ++ ", right="
        ++ construction hidden right ++ ")"
  | .parens inner => "Parens(inner=" ++ construction hidden inner ++ ")"
  | .foreign value => value.elim

section Equations

variable (hidden : Char → Bool) (l : License) (exception : String)
  (left right inner : Expr)

/- The equations are stated here because the ones that come with the
definition take long to be made for texts of this length. -/

theorem construction_withException :
    construction hidden (.withException l exception)
      = "WithExpression(license=" ++ Style.licenseLiteral hidden l
        ++ ", exception=" ++ quoted hidden exception ++ ")" := rfl

theorem construction_and :
    construction hidden (.and left right)
      = "And(left=" ++ construction hidden left ++ ", right="
        ++ construction hidden right ++ ")" := rfl

theorem construction_or :
    construction hidden (.or left right)
      = "Or(left=" ++ construction hidden left ++ ", right="
        ++ construction hidden right ++ ")" := rfl

theorem construction_parens :
    construction hidden (.parens inner)
      = "Parens(inner=" ++ construction hidden inner ++ ")" := rfl

end Equations

/-- Written in the style of literals, an expression is put together from its
operands. -/
theorem written_eq_construction (hidden : Char → Bool) (t : Expr) :
    t.written
        (Style.literal (nofun : Empty → Except Empty String) hidden)
      = .ok (t.construction hidden) := by
  induction t with
  | license l => rfl
  | withException l exception => rfl
  | and left right ihl ihr => rw [Draft.written, ihl, ihr]; rfl
  | or left right ihl ihr => rw [Draft.written, ihl, ihr]; rfl
  | parens inner ih => rw [Draft.written, ih]; rfl
  | foreign value => exact value.elim

/-- The walk and the recursion show the same. -/
theorem literal_eq_construction (hidden : Char → Bool) (t : Expr) :
    t.literal hidden = t.construction hidden := by
  have h := written_eq_construction hidden t
  rw [← Draft.write_eq_written] at h
  exact congrArg accepted h

-- ========================================================= where it ends

/-- The first character of the literal of an expression. -/
def initial : Expr → Char
  | .license _ => 'S'
  | .withException _ _ => 'W'
  | .and _ _ => 'A'
  | .or _ _ => 'O'
  | .parens _ => 'P'
  | .foreign value => value.elim

/-- The name of the node comes first. -/
theorem head?_construction (t : Expr) :
    (t.construction hidden).toList.head? = some t.initial := by
  cases t with
  | license l =>
      show (Style.licenseLiteral hidden l).toList.head? = some 'S'
      unfold Style.licenseLiteral
      simp
  | withException l exception =>
      rw [construction_withException]
      simp [initial]
  | and left right => rw [construction_and]; simp [initial]
  | or left right => rw [construction_or]; simp [initial]
  | parens inner => rw [construction_parens]; simp [initial]
  | foreign value => exact value.elim

/-- Literals that begin the same text are of nodes of one kind. -/
theorem initial_eq {a b : Expr}
    (h : (a.construction hidden).toList ++ rest
      = (b.construction hidden).toList ++ rest') :
    a.initial = b.initial := by
  have hhead := congrArg List.head? h
  rw [List.head?_append, List.head?_append, head?_construction,
    head?_construction] at hhead
  exact Option.some.inj hhead

/-- Whatever stands behind the literal of the expression, no other one has a
literal that begins the same text. -/
def EndsItself (hidden : Char → Bool) (a : Expr) : Prop :=
  ∀ (b : Expr) (rest rest' : List Char),
    (a.construction hidden).toList ++ rest
      = (b.construction hidden).toList ++ rest' → a = b ∧ rest = rest'

/-- Two operands end themselves also with the same texts around them. -/
theorem EndsItself.operands {left right left' right' : Expr}
    (hleft : EndsItself hidden left) (hright : EndsItself hidden right)
    {opening between closing : String}
    (h : (opening ++ left.construction hidden ++ between
          ++ right.construction hidden ++ closing).toList ++ rest
      = (opening ++ left'.construction hidden ++ between
          ++ right'.construction hidden ++ closing).toList ++ rest') :
    left = left' ∧ right = right' ∧ rest = rest' := by
  simp only [String.toList_append, List.append_assoc] at h
  obtain ⟨rfl, hbehind⟩ := hleft _ _ _ (List.append_cancel_left h)
  obtain ⟨rfl, hclosing⟩ := hright _ _ _ (List.append_cancel_left hbehind)
  exact ⟨rfl, rfl, List.append_cancel_left hclosing⟩

/-- Every expression can be told from the beginning of its literal. Nodes of
different kinds differ in its first character. -/
theorem endsItself (hidden : Char → Bool) (a : Expr) :
    EndsItself hidden a := by
  induction a with
  | license l =>
      intro b rest rest' h
      cases b with
      | license l' =>
          obtain ⟨rfl, hrest⟩ := Style.licenseLiteral_unique h
          exact ⟨rfl, hrest⟩
      | foreign value => exact value.elim
      | _ => exact absurd (initial_eq h) (by simp [initial])
  | withException l exception =>
      intro b rest rest' h
      cases b with
      | withException l' exception' =>
          rw [construction_withException, construction_withException] at h
          simp only [String.toList_append, List.append_assoc] at h
          have hlicense := List.append_cancel_left h
          obtain ⟨rfl, hbehind⟩ := Style.licenseLiteral_unique hlicense
          have hexception := List.append_cancel_left hbehind
          obtain ⟨rfl, hclosing⟩ := quotedString_unique hexception
          exact ⟨rfl, List.append_cancel_left hclosing⟩
      | foreign value => exact value.elim
      | _ => exact absurd (initial_eq h) (by simp [initial])
  | and left right ihl ihr =>
      intro b rest rest' h
      cases b with
      | and left' right' =>
          rw [construction_and, construction_and] at h
          obtain ⟨rfl, rfl, hrest⟩ := ihl.operands ihr h
          exact ⟨rfl, hrest⟩
      | foreign value => exact value.elim
      | _ => exact absurd (initial_eq h) (by simp [initial])
  | or left right ihl ihr =>
      intro b rest rest' h
      cases b with
      | or left' right' =>
          rw [construction_or, construction_or] at h
          obtain ⟨rfl, rfl, hrest⟩ := ihl.operands ihr h
          exact ⟨rfl, hrest⟩
      | foreign value => exact value.elim
      | _ => exact absurd (initial_eq h) (by simp [initial])
  | parens inner ih =>
      intro b rest rest' h
      cases b with
      | parens inner' =>
          rw [construction_parens, construction_parens] at h
          simp only [String.toList_append, List.append_assoc] at h
          have hinner := List.append_cancel_left h
          obtain ⟨rfl, hclosing⟩ := ih _ _ _ hinner
          exact ⟨rfl, List.append_cancel_left hclosing⟩
      | foreign value => exact value.elim
      | _ => exact absurd (initial_eq h) (by simp [initial])
  | foreign value => exact value.elim

end Expr

/-- The literal of an expression, which one walk over a stack writes, is put
together from the literals of its operands, and two expressions have the same
literal exactly if they are the same. This holds for any texts in them, and
whichever characters are said not to show. -/
theorem literal_shows_tree (hidden : Char → Bool) :
    (∀ t : Expr, t.literal hidden = t.construction hidden)
    ∧ ∀ a b : Expr, a.literal hidden = b.literal hidden ↔ a = b := by
  refine ⟨Expr.literal_eq_construction hidden, fun a b => ⟨fun h => ?_, ?_⟩⟩
  · rw [Expr.literal_eq_construction, Expr.literal_eq_construction] at h
    exact (Expr.endsItself hidden a b [] []
      (congrArg (fun text : String => text.toList ++ []) h)).1
  · rintro rfl
    rfl

end LicenseExpr
