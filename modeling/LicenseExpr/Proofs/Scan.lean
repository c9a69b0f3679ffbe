/-
Expression text as a flat sequence of tokens, and a scanner that rewrites it
without knowing the grammar.

A token is a parenthesis or a word, which is a longest run of characters
that are neither blanks nor parentheses (`tokensOf`). The scanner has two
states: it expects an operand or an operator. A word is kept where an
operand is expected and raised to upper case where an operator is, so a
license called `and` survives and an operator spelled `and` does not.

Everything here is about any text. That scanning agrees with reading and
writing is shown for the texts that are read (`Canonical`).
-/
import LicenseExpr.Proofs.Spelling

namespace LicenseExpr

open Text

-- ============================================================== tokens

/-- A part of a text between blanks: a parenthesis or a word. -/
inductive Token where
  | opening
  | closing
  | word (letters : List Char)
deriving DecidableEq

/-- Words are made of what is neither a blank nor a parenthesis. -/
def isWordChar (c : Char) : Bool := !isBlank c && c != '(' && c != ')'

/-- The tokens of a text. -/
def tokensOf : List Char → List Token
  | [] => []
  | c :: cs =>
      if isWordChar c then
        .word (c :: cs.takeWhile isWordChar)
          :: tokensOf (cs.dropWhile isWordChar)
      else if c = '(' then .opening :: tokensOf cs
      else if c = ')' then .closing :: tokensOf cs
      else tokensOf cs
termination_by cs => cs.length
decreasing_by
  all_goals
    have hle := length_dropWhile_le isWordChar cs
    simp only [List.length_cons]
    omega

section Tokens

variable {c : Char} {cs rest run gap : List Char}

/-- No blank is in a word. -/
theorem isWordChar_of_isBlank (h : isBlank c = true) :
    isWordChar c = false := by
  simp [isWordChar, h]

/-- All that is in a license is. -/
theorem isWordChar_of_isLicenseChar (h : isLicenseChar c = true) :
    isWordChar c = true := by
  have hblank : isBlank c = false := isBlank_of_isLicenseChar h
  have hopen : c ≠ '(' := ne_of_class rfl h
  have hclose : c ≠ ')' := ne_of_class rfl h
  simp [isWordChar, hblank, hopen, hclose]

@[simp] theorem tokensOf_nil : tokensOf [] = [] := by
  rw [tokensOf]

@[simp] theorem tokensOf_opening :
    tokensOf ('(' :: cs) = .opening :: tokensOf cs := by
  rw [tokensOf, if_neg (by decide), if_pos rfl]

@[simp] theorem tokensOf_closing :
    tokensOf (')' :: cs) = .closing :: tokensOf cs := by
  rw [tokensOf, if_neg (by decide), if_neg (by decide), if_pos rfl]

/-- A blank makes no token. -/
theorem tokensOf_blank (h : isBlank c = true) :
    tokensOf (c :: cs) = tokensOf cs := by
  have hopen : c ≠ '(' := ne_of_class rfl h
  have hclose : c ≠ ')' := ne_of_class rfl h
  rw [tokensOf, if_neg (by rw [isWordChar_of_isBlank h]; decide),
    if_neg hopen, if_neg hclose]

/-- Blanks in front of a text do not show in its tokens. -/
theorem tokensOf_blanks (h : ∀ c ∈ gap, isBlank c = true) :
    tokensOf (gap ++ rest) = tokensOf rest := by
  induction gap with
  | nil => rfl
  | cons c gap ih =>
      obtain ⟨hc, hgap⟩ := List.forall_mem_cons.1 h
      rw [List.cons_append, tokensOf_blank hc, ih hgap]

/-- A run of word characters that does not go on is one word. -/
theorem tokensOf_word (hne : run ≠ [])
    (hrun : ∀ c ∈ run, isWordChar c = true)
    (hrest : NotAhead isWordChar rest) :
    tokensOf (run ++ rest) = .word run :: tokensOf rest := by
  obtain ⟨c, tail, rfl⟩ := List.exists_cons_of_ne_nil hne
  obtain ⟨hc, htail⟩ := List.forall_mem_cons.1 hrun
  rw [List.cons_append, tokensOf, if_pos hc, takeWhile_run htail hrest,
    dropWhile_run htail hrest]

/-- A spelling of an operator is one word, and it does not go on with what
is in front of it. -/
theorem tokensOf_spelling {word : String} (hword : IsOperatorWord word)
    (s : Spelling word) (rest : List Char) :
    tokensOf (s.text ++ rest) = .word s.letters :: tokensOf rest := by
  have hletters := s.spells.isIdChar hword
  have hafter : NotAhead isWordChar (s.after ++ rest) :=
    s.gapAfter.notAhead fun _ => isWordChar_of_isBlank
  rw [Spelling.text, List.append_assoc, List.append_assoc,
    tokensOf_blanks s.gapBefore.2,
    tokensOf_word (s.spells.ne_nil hword) ?_ hafter,
    tokensOf_blanks s.gapAfter.2]
  intro c hc
  exact isWordChar_of_isLicenseChar
    (isLicenseChar_of_isIdChar (hletters c hc))

/-- An operator begins with a blank, so a word in front of it ends. -/
theorem Spelling.notAhead_word {word : String} (s : Spelling word)
    (rest : List Char) : NotAhead isWordChar (s.text ++ rest) := by
  rw [Spelling.text, List.append_assoc, List.append_assoc]
  exact s.gapBefore.notAhead fun _ => isWordChar_of_isBlank

/-- A word does not go on in a closed text. -/
theorem Closed.notAhead_word (h : Closed cs) : NotAhead isWordChar cs :=
  h.notAhead (fun _ => isWordChar_of_isBlank) rfl

end Tokens

-- ============================================================= scanning

/-- What the scanner expects next. -/
inductive Expecting where
  | operand
  | operator

/-- Writes tokens down: parentheses and the words of operands as they are,
the words of operators in upper case with a space on either side. -/
def scan : Expecting → List Token → List Char
  | _, [] => []
  | e, .opening :: tokens => '(' :: scan e tokens
  | _, .closing :: tokens => ')' :: scan .operator tokens
  | .operand, .word letters :: tokens => letters ++ scan .operator tokens
  | .operator, .word letters :: tokens =>
      ' ' :: letters.map Char.toUpper ++ ' ' :: scan .operand tokens

/-- The words that the scanner meets where it expects an operand. -/
def operandWords : Expecting → List Token → List (List Char)
  | _, [] => []
  | e, .opening :: tokens => operandWords e tokens
  | _, .closing :: tokens => operandWords .operator tokens
  | .operand, .word letters :: tokens =>
      letters :: operandWords .operator tokens
  | .operator, .word _ :: tokens => operandWords .operand tokens

/-- The tokens differ in nothing but the cases in which operators are
spelled. -/
inductive Respelled : Expecting → List Token → List Token → Prop where
  | nil (e : Expecting) : Respelled e [] []
  | opening {e : Expecting} {tokens tokens' : List Token} :
      Respelled e tokens tokens' →
      Respelled e (.opening :: tokens) (.opening :: tokens')
  | closing {e : Expecting} {tokens tokens' : List Token} :
      Respelled .operator tokens tokens' →
      Respelled e (.closing :: tokens) (.closing :: tokens')
  | operand (letters : List Char) {tokens tokens' : List Token} :
      Respelled .operator tokens tokens' →
      Respelled .operand (.word letters :: tokens) (.word letters :: tokens')
  | operator {letters letters' : List Char} {tokens tokens' : List Token} :
      letters.map Char.toUpper = letters'.map Char.toUpper →
      Respelled .operand tokens tokens' →
      Respelled .operator (.word letters :: tokens)
        (.word letters' :: tokens')

/-- The cases in which operators are spelled do not show in the scan. -/
theorem Respelled.scan_eq {e : Expecting} {tokens tokens' : List Token}
    (h : Respelled e tokens tokens') : scan e tokens = scan e tokens' := by
  induction h with
  | nil e => rfl
  | opening _ ih => rw [scan, scan, ih]
  | closing _ ih => rw [scan, scan, ih]
  | operand letters _ ih => rw [scan, scan, ih]
  | operator hcase _ ih => rw [scan, scan, hcase, ih]

end LicenseExpr
