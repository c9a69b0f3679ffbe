/-
The smallest parts of a TOML document: blanks, comments, strings and keys.

Readers work on the text in front of them and answer what they read and the
text that is left. To decline is to find the document malformed; there is
never another way to read it.
-/
import LicenseExpr.Recognizer
import LicenseExpr.Text.Hex

namespace LicenseExpr.Toml

open Text

/-- Reads, and shows that the text that is left is shorter. A reader that
would read nothing declines. -/
def strictly {α : Type} (read : Recognizer α) (cs : List Char) :
    Option (α × { rest : List Char // rest.length < cs.length }) :=
  match read cs with
  | some (value, rest) =>
      if h : rest.length < cs.length then some (value, ⟨rest, h⟩)
      else none
  | none => none

-- ============================================ blanks and comments

/-- Blanks within a line. -/
def isSpace (c : Char) : Bool := c == ' ' || c == '\t'

/-- The control characters, of which only the tab may stand in comments and
strings. -/
def isControl (c : Char) : Bool :=
  (c.toNat < 0x20 && c != '\t') || c.toNat == 0x7F

/-- The text without its leading blanks. -/
def skipSpaces (cs : List Char) : List Char := cs.dropWhile isSpace

/-- The text after blanks, line ends and comments, up to the end of the
text or to something else. -/
def skipTrivia (inComment : Bool) : List Char → Option (List Char)
  | [] => some []
  | c :: cs =>
      if c == '\n' then skipTrivia false cs
      else if inComment then
        if isControl c then none else skipTrivia true cs
      else if c == '#' then skipTrivia true cs
      else if isSpace c then skipTrivia false cs
      else some (c :: cs)

/-- The text after the end of a line, in front of which only blanks and a
comment may stand. -/
def endLine (cs : List Char) : Option (List Char) :=
  match skipSpaces cs with
  | [] => some []
  | '\n' :: rest => some rest
  | '#' :: rest =>
      if (rest.takeWhile (· != '\n')).any isControl then none
      else some ((rest.dropWhile (· != '\n')).drop 1)
  | _ => none

theorem length_skipTrivia_le {inComment : Bool} {cs rest : List Char}
    (h : skipTrivia inComment cs = some rest) :
    rest.length ≤ cs.length := by
  induction cs generalizing inComment with
  | nil => simp_all [skipTrivia]
  | cons c cs ih =>
      simp only [skipTrivia] at h
      split at h
      · exact Nat.le_succ_of_le (ih h)
      · split at h
        · split at h
          · simp at h
          · exact Nat.le_succ_of_le (ih h)
        · split at h
          · exact Nat.le_succ_of_le (ih h)
          · split at h
            · exact Nat.le_succ_of_le (ih h)
            · simp only [Option.some.injEq] at h
              simp [← h]

theorem length_skipSpaces_le (cs : List Char) :
    (skipSpaces cs).length ≤ cs.length :=
  length_dropWhile_le isSpace cs

-- ========================================================= strings

/-- The character with a given number, surrogates excluded. -/
def scalar? (number : Nat) : Option Char :=
  if h : number.isValidChar then some (Char.ofNatAux number h) else none

/-- The number that hexadecimal digits stand for. -/
def hexNumber? (digits : List Char) : Option Nat :=
  digits.foldl
    (fun number c => do return 16 * (← number) + (← hexValue? c)) (some 0)

/-- The character that `\` and one further character stand for. -/
def shortEscape? : Char → Option Char
  | 'b' => some '\x08'
  | 't' => some '\t'
  | 'n' => some '\n'
  | 'f' => some '\x0c'
  | 'r' => some '\r'
  | '"' => some '"'
  | '\\' => some '\\'
  | _ => none

/-- The rest of a string between single `"`, after the characters `before`,
which are in reverse. -/
def basicString (before : List Char) : Recognizer String
  | [] => none
  | '"' :: rest => some (String.ofList before.reverse, rest)
  | '\\' :: 'u' :: a :: b :: c :: d :: rest => do
      basicString ((← scalar? (← hexNumber? [a, b, c, d])) :: before) rest
  | '\\' :: 'U' :: a :: b :: c :: d :: e :: f :: g :: h :: rest => do
      let number ← hexNumber? [a, b, c, d, e, f, g, h]
      basicString ((← scalar? number) :: before) rest
  | '\\' :: c :: rest => do basicString ((← shortEscape? c) :: before) rest
  | c :: rest => if isControl c then none else basicString (c :: before) rest

/-- The rest of a string between three `"`. Up to two quotes at its end
belong to it. While `trimming`, blanks and line ends are passed over, which
a `\` at the end of a line asks for. -/
def longBasicString (trimming : Bool) (before : List Char) :
    Recognizer String
  | [] => none
  | '"' :: '"' :: '"' :: '"' :: '"' :: rest =>
      some (String.ofList ('"' :: '"' :: before).reverse, rest)
  | '"' :: '"' :: '"' :: '"' :: rest =>
      some (String.ofList ('"' :: before).reverse, rest)
  | '"' :: '"' :: '"' :: rest => some (String.ofList before.reverse, rest)
  | '\\' :: 'u' :: a :: b :: c :: d :: rest => do
      let number ← hexNumber? [a, b, c, d]
      longBasicString false ((← scalar? number) :: before) rest
  | '\\' :: 'U' :: a :: b :: c :: d :: e :: f :: g :: h :: rest => do
      let number ← hexNumber? [a, b, c, d, e, f, g, h]
      longBasicString false ((← scalar? number) :: before) rest
  | '\\' :: c :: rest =>
      if isSpace c || c == '\n' then
        match skipSpaces (c :: rest) with
        | '\n' :: _ => longBasicString true before rest
        | _ => none
      else do longBasicString false ((← shortEscape? c) :: before) rest
  | c :: rest =>
      if trimming && (isSpace c || c == '\n') then
        longBasicString true before rest
      else if isControl c && c != '\n' then none
      else longBasicString false (c :: before) rest

/-- The rest of a string between single `'`, in which nothing is escaped. -/
def literalString (before : List Char) : Recognizer String
  | [] => none
  | '\'' :: rest => some (String.ofList before.reverse, rest)
  | c :: rest =>
      if isControl c then none else literalString (c :: before) rest

/-- The rest of a string between three `'`. Up to two quotes at its end
belong to it. -/
def longLiteralString (before : List Char) : Recognizer String
  | [] => none
  | '\'' :: '\'' :: '\'' :: '\'' :: '\'' :: rest =>
      some (String.ofList ('\'' :: '\'' :: before).reverse, rest)
  | '\'' :: '\'' :: '\'' :: '\'' :: rest =>
      some (String.ofList ('\'' :: before).reverse, rest)
  | '\'' :: '\'' :: '\'' :: rest => some (String.ofList before.reverse, rest)
  | c :: rest =>
      if isControl c && c != '\n' then none
      else longLiteralString (c :: before) rest

/-- The text after a line end that stands right in front. -/
def skipLineEnd : List Char → List Char
  | '\n' :: rest => rest
  | cs => cs

/-- A string on one line. -/
def shortString : Recognizer String
  | '"' :: rest => basicString [] rest
  | '\'' :: rest => literalString [] rest
  | _ => none

/-- A string of any of the four kinds. A line end right after three quotes
is not part of the string. -/
def string : Recognizer String
  | '"' :: '"' :: '"' :: rest => longBasicString false [] (skipLineEnd rest)
  | '\'' :: '\'' :: '\'' :: rest => longLiteralString [] (skipLineEnd rest)
  | cs => shortString cs

-- ============================================================ keys

/-- Characters of keys that are written without quotes. -/
def isBareKeyChar (c : Char) : Bool := c.isAlphanum || c == '-' || c == '_'

/-- A key: a string on one line, or a run of bare characters. -/
def key : Recognizer String := fun cs =>
  match cs with
  | '"' :: '"' :: '"' :: _ => none
  | '\'' :: '\'' :: '\'' :: _ => none
  | '"' :: _ => shortString cs
  | '\'' :: _ => shortString cs
  | _ =>
      match cs.takeWhile isBareKeyChar with
      | [] => none
      | run => some (String.ofList run, cs.dropWhile isBareKeyChar)

/-- One key or several with dots between them, and the blanks after it. -/
def keyPath (cs : List Char) : Option (List String × List Char) :=
  match strictly key cs with
  | none => none
  | some (first, ⟨rest, hrest⟩) =>
      match hdot : skipSpaces rest with
      | '.' :: rest' =>
          have : (skipSpaces rest').length < cs.length := by
            have h₁ := length_skipSpaces_le rest
            have h₂ := length_skipSpaces_le rest'
            simp only [hdot, List.length_cons] at h₁
            omega
          (keyPath (skipSpaces rest')).map fun (keys, rest) =>
            (first :: keys, rest)
      | rest' => some ([first], rest')
termination_by cs.length

end LicenseExpr.Toml
