/-
The grammar of license expressions, read by recursive descent.

    expression = term (OR term)*
    term       = factor (AND factor)*
    factor     = license WITH exception | license | ( expression )

AND and OR group to the left, and an operator whose right operand cannot be
read is not read either: the rule ends in front of it.

# Nesting

A rule is given the number of levels of parentheses that may still be
opened. The descent is structural in that number, so it needs no fuel. An
opening parenthesis where no level is left ends the whole reading at once:
unlike a text that merely does not match, it is not something another
alternative could get around.

# The rest grows shorter

Each rule answers the text it leaves together with a proof that it is
shorter than what the rule was given. That is what makes the lists of
operands end.
-/
import LicenseExpr.Recognizer
import LicenseExpr.Draft

namespace LicenseExpr

/-- What a rule makes of the text in front of it. -/
inductive Outcome where
  /-- An expression, and the text after it. -/
  | found (expr : Expr) (rest : List Char)
  /-- The text does not begin with what the rule describes. -/
  | absent
  /-- A parenthesis opens where no level is left. The text begins with that
  parenthesis. -/
  | tooDeep (ahead : List Char)
deriving DecidableEq

/-- Where something is found, fewer than `n` characters are left. -/
def Outcome.Within (n : Nat) : Outcome → Prop
  | found _ rest => rest.length < n
  | absent => True
  | tooDeep _ => True

theorem Outcome.Within.mono {m n : Nat} (hle : m ≤ n) :
    ∀ {o : Outcome}, o.Within m → o.Within n
  | found _ _, h => Nat.lt_of_lt_of_le h hle
  | absent, _ => trivial
  | tooDeep _, _ => trivial

/-- A rule of the grammar: what it makes of every text. What it finds, it
finds on at least one character. -/
abbrev Rule : Type :=
  (cs : List Char) → { o : Outcome // o.Within cs.length }

namespace Grammar

open Text Recognizer

-- ================================================= lists of operands

/-- Goes on from `first`, to which `cs` is what is left: joins to it, from
left to right, every further `operand` that `word` announces. -/
def joinOperands (word : String) (join : Expr → Expr → Expr)
    (operand : Rule) (first : Expr) (cs : List Char) :
    { o : Outcome // o.Within (cs.length + 1) } :=
  match hword : operator word cs with
  | none => ⟨.found first cs, Nat.lt_succ_self _⟩
  | some ((), ahead) =>
      have hahead : ahead.length < cs.length := operator_consumes word hword
      match operand ahead with
      | ⟨.absent, _⟩ => ⟨.found first cs, Nat.lt_succ_self _⟩
      | ⟨.tooDeep deep, _⟩ => ⟨.tooDeep deep, trivial⟩
      | ⟨.found next rest, hrest⟩ =>
          have hlt : rest.length < cs.length := Nat.lt_trans hrest hahead
          let ⟨o, ho⟩ :=
            joinOperands word join operand (join first next) rest
          ⟨o, ho.mono (Nat.le_succ_of_le hlt)⟩
termination_by cs.length

/-- One operand, and all the further ones that `word` joins to it. -/
def operands (word : String) (join : Expr → Expr → Expr)
    (operand : Rule) : Rule := fun cs =>
  match operand cs with
  | ⟨.found first rest, hrest⟩ =>
      let ⟨o, ho⟩ := joinOperands word join operand first rest
      ⟨o, ho.mono hrest⟩
  | ⟨.absent, _⟩ => ⟨.absent, trivial⟩
  | ⟨.tooDeep deep, _⟩ => ⟨.tooDeep deep, trivial⟩

-- ========================================================== factors

/-- A single license, and the exception to it if one follows. -/
def licensed : Recognizer Expr := fun cs =>
  match license cs with
  | none => none
  | some (license, rest) =>
      match exception rest with
      | some (name, rest) => some (.withException license name, rest)
      | none => some (.license license, rest)

theorem licensed_consumes : licensed.Consumes := by
  intro cs value rest h
  simp only [licensed] at h
  split at h
  · simp at h
  · rename_i hl
    have hlt := license_consumes hl
    split at h
    · rename_i he
      have := exception_consumes he
      simp only [Option.some.injEq, Prod.mk.injEq] at h
      simp only [← h.2]
      omega
    · simp only [Option.some.injEq, Prod.mk.injEq] at h
      simpa only [← h.2] using hlt

/-- What `inside` describes, in parentheses. Blanks may stand inside them
on both ends. -/
def parenthesized (inside : Rule) : Rule := fun cs =>
  match cs with
  | '(' :: ahead =>
      match inside (skipBlanks ahead) with
      | ⟨.found inner rest, hrest⟩ =>
          match hclose : skipBlanks rest with
          | ')' :: rest' => ⟨.found (.parens inner) rest', by
              have h₁ := length_skipBlanks_le ahead
              have h₂ := length_skipBlanks_le rest
              simp only [Outcome.Within, hclose,
                List.length_cons] at hrest h₂ ⊢
              omega⟩
          | _ => ⟨.absent, trivial⟩
      | ⟨.absent, _⟩ => ⟨.absent, trivial⟩
      | ⟨.tooDeep deep, _⟩ => ⟨.tooDeep deep, trivial⟩
  | _ => ⟨.absent, trivial⟩

/-- Refuses a parenthesis that opens. -/
def noParenthesis : Rule := fun cs =>
  match cs with
  | '(' :: ahead => ⟨.tooDeep ('(' :: ahead), trivial⟩
  | _ => ⟨.absent, trivial⟩

/-- A license with or without an exception; else what `group` makes of a
parenthesis. -/
def factorOf (group : Rule) : Rule := fun cs =>
  match h : licensed cs with
  | some (expr, rest) => ⟨.found expr rest, licensed_consumes h⟩
  | none => group cs

-- ============================================================ rules

/-- Factors joined by AND. -/
def termOf (group : Rule) : Rule := operands "AND" .and (factorOf group)

/-- Terms joined by OR. -/
def expressionOf (group : Rule) : Rule := operands "OR" .or (termOf group)

/-- An expression in parentheses, where `levels` levels may be opened. -/
def group : (levels : Nat) → Rule
  | 0, cs => noParenthesis cs
  | levels + 1, cs => parenthesized (expressionOf (group levels)) cs

/-- A factor, where `levels` levels of parentheses may be opened. -/
def factor (levels : Nat) : Rule := factorOf (group levels)

/-- A term, where `levels` levels of parentheses may be opened. -/
def term (levels : Nat) : Rule := termOf (group levels)

/-- An expression, where `levels` levels of parentheses may be opened. -/
def expression (levels : Nat) : Rule := expressionOf (group levels)

-- ============================================ outcomes without proofs

theorem joinOperands_val (word : String) (join : Expr → Expr → Expr)
    (operand : Rule) (first : Expr) (cs : List Char) :
    (joinOperands word join operand first cs).val =
      match operator word cs with
      | none => .found first cs
      | some ((), ahead) =>
          match (operand ahead).val with
          | .absent => .found first cs
          | .tooDeep deep => .tooDeep deep
          | .found next rest =>
              (joinOperands word join operand (join first next)
                rest).val := by
  rw [joinOperands]
  split
  · rename_i h; simp [h]
  · rename_i ahead h
    simp only [h]
    split <;> rename_i hop <;> simp [hop]

theorem operands_val (word : String) (join : Expr → Expr → Expr)
    (operand : Rule) (cs : List Char) :
    (operands word join operand cs).val =
      match (operand cs).val with
      | .found first rest =>
          (joinOperands word join operand first rest).val
      | .absent => .absent
      | .tooDeep deep => .tooDeep deep := by
  unfold operands
  split <;> rename_i h <;> simp [h]

theorem factorOf_val (group : Rule) (cs : List Char) :
    (factorOf group cs).val =
      match licensed cs with
      | some (expr, rest) => .found expr rest
      | none => (group cs).val := by
  unfold factorOf
  split <;> rename_i h <;> simp [h]

theorem parenthesized_val (inside : Rule) (cs : List Char) :
    (parenthesized inside cs).val =
      match cs with
      | '(' :: ahead =>
          match (inside (skipBlanks ahead)).val with
          | .found inner rest =>
              match skipBlanks rest with
              | ')' :: rest => .found (.parens inner) rest
              | _ => .absent
          | o => o
      | _ => .absent := by
  unfold parenthesized
  split
  · split <;> rename_i h <;> simp [h]
    split <;> rename_i h' <;> simp [h']
  · rfl

end Grammar

end LicenseExpr
