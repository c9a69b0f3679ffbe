/-
The two classes of characters that expression text is cut by: those an
identifier is made of, and the blanks around operators. Both are ASCII, so
a letter or a space outside ASCII belongs to neither.

The cutting itself is done on lists of characters. What a function leaves
is never longer than what it was given, and the lemmas beside the
definitions say by how much it is shorter.
-/

namespace LicenseExpr.Text

/-- An identifier is made of ASCII letters and digits, `-` and `.`. -/
def isIdChar (c : Char) : Bool := c.isAlphanum || c == '-' || c == '.'

/-- Space, tab, carriage return and line feed separate, and nothing else. -/
def isBlank (c : Char) : Bool :=
  c == ' ' || c == '\t' || c == '\r' || c == '\n'

/-- A character below 128. -/
def isAscii (c : Char) : Bool := c.toNat < 128

/-- The text without its leading blanks. -/
def skipBlanks (cs : List Char) : List Char := cs.dropWhile isBlank

/-- The text after `lead`, where `lead` stands in front of it. -/
def after? : List Char → List Char → Option (List Char)
  | [], cs => some cs
  | _ :: _, [] => none
  | l :: ls, c :: cs => if c = l then after? ls cs else none

/-- The text after `word`, where a spelling of `word` in any mixture of
ASCII cases stands in front of it. The text is raised to upper case and the
word is not, so a word with a lower-case letter has no spelling at all. -/
def afterAnyCase? : List Char → List Char → Option (List Char)
  | [], cs => some cs
  | _ :: _, [] => none
  | w :: ws, c :: cs =>
      if isAscii c && c.toUpper == w then afterAnyCase? ws cs else none

-- ====================================================== lengths

theorem length_dropWhile_le {α : Type} (p : α → Bool) (l : List α) :
    (l.dropWhile p).length ≤ l.length :=
  (List.dropWhile_sublist p).length_le

theorem length_skipBlanks_le (cs : List Char) :
    (skipBlanks cs).length ≤ cs.length :=
  length_dropWhile_le isBlank cs

/-- What stands after `lead` is shorter by exactly its length. -/
theorem length_of_after? {lead cs rest : List Char}
    (h : after? lead cs = some rest) :
    rest.length + lead.length = cs.length := by
  induction lead generalizing cs with
  | nil => simp_all [after?]
  | cons l ls ih =>
      cases cs with
      | nil => simp [after?] at h
      | cons c cs =>
          by_cases hc : c = l
          · simp only [after?, hc, if_pos] at h
            simp [← ih h]
            omega
          · simp [after?, hc] at h

/-- What stands after a spelling of `word` is shorter by exactly its
length. -/
theorem length_of_afterAnyCase? {word cs rest : List Char}
    (h : afterAnyCase? word cs = some rest) :
    rest.length + word.length = cs.length := by
  induction word generalizing cs with
  | nil => simp_all [afterAnyCase?]
  | cons w ws ih =>
      cases cs with
      | nil => simp [afterAnyCase?] at h
      | cons c cs =>
          by_cases hc : (isAscii c && c.toUpper == w) = true
          · simp only [afterAnyCase?, hc, if_pos] at h
            simp [← ih h]
            omega
          · simp only [afterAnyCase?, hc] at h
            simp at h

end LicenseExpr.Text
