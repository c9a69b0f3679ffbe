/-
TOML documents.

A document is a sequence of lines: headers, which say what table the
following lines are about, and keys with their values. Values nest, and so
the readers of values call each other; each call gets a shorter text, or the
same text with a simpler task.
-/
import LicenseExpr.Toml.Scalar
import LicenseExpr.Toml.Tree

namespace LicenseExpr.Toml

-- ========================================================== values

/-- What a reader of something in a text answers: the value it read, and
the text that is left, which is shorter. -/
abbrev Strict (α : Type) (cs : List Char) : Type :=
  Option (α × { rest : List Char // rest.length < cs.length })

/-- Passes an answer on to where more text stood in front. -/
def Strict.widen {α : Type} {cs more : List Char}
    (h : cs.length ≤ more.length) (answer : Strict α cs) :
    Strict α more :=
  answer.map fun (value, ⟨rest, hrest⟩) =>
    (value, ⟨rest, Nat.lt_of_lt_of_le hrest h⟩)

/-- A key, which may be dotted, and the sign in front of its value. -/
def assignment : Recognizer (List String) := fun cs =>
  match keyPath (skipSpaces cs) with
  | some (path, '=' :: rest) => some (path, skipSpaces rest)
  | _ => none

/-- A value that holds no other values. -/
def atom : Recognizer Value := fun cs =>
  match cs with
  | '"' :: _ => (string cs).map fun (text, rest) => (.text text, rest)
  | '\'' :: _ => (string cs).map fun (text, rest) => (.text text, rest)
  | _ => scalar cs

mutual

/-- A value of any kind. -/
def value (cs : List Char) : Strict Value cs :=
  match cs with
  | '[' :: rest =>
      (items [] rest).widen (Nat.le_succ _)
  | '\x7b' :: rest =>
      match hspaces : skipSpaces rest with
      | '\x7d' :: rest' =>
          some (.table [], ⟨rest', by
            have h := length_skipSpaces_le rest
            simp only [hspaces, List.length_cons] at h ⊢
            omega⟩)
      | _ => (members [] rest).widen (Nat.le_succ _)
  | cs => strictly atom cs
termination_by (cs.length, 0)
decreasing_by
  all_goals exact .left _ _ (Nat.lt_succ_self _)

/-- The rest of an array, after the items `before`, which are in reverse.
Comments and line ends may stand between its items, and a comma after the
last one. -/
def items (before : List Value) (cs : List Char) : Strict Value cs :=
  match htrivia : skipTrivia false cs with
  | none => none
  | some (']' :: rest) =>
      some (.list before.reverse, ⟨rest, by
        have h := length_skipTrivia_le htrivia
        simp only [List.length_cons] at h
        omega⟩)
  | some ahead =>
      have hahead : ahead.length ≤ cs.length := length_skipTrivia_le htrivia
      match value ahead with
      | none => none
      | some (item, ⟨rest, hrest⟩) =>
          match hafter : skipTrivia false rest with
          | some (',' :: rest') =>
              have hshort : rest'.length < cs.length := by
                have h := length_skipTrivia_le hafter
                simp only [List.length_cons] at h
                omega
              (items (item :: before) rest').widen (Nat.le_of_lt hshort)
          | some (']' :: rest') =>
              some (.list (item :: before).reverse, ⟨rest', by
                have h := length_skipTrivia_le hafter
                simp only [List.length_cons] at h
                omega⟩)
          | _ => none
termination_by (cs.length, 1)
decreasing_by
  · rcases Nat.lt_or_eq_of_le hahead with h | h
    · exact .left _ _ h
    · rw [h]
      exact .right _ Nat.zero_lt_one
  · exact .left _ _ hshort

/-- The rest of an inline table with at least one more member, after the
members read so far. It is written on one line, and no comma follows the
last member. -/
def members (before : Entries) (cs : List Char) : Strict Value cs :=
  match strictly assignment cs with
  | none => none
  | some (path, ⟨ahead, hahead⟩) =>
      match value ahead with
      | none => none
      | some (member, ⟨rest, hrest⟩) =>
          match before.put member path with
          | none => none
          | some entries =>
              match hafter : skipSpaces rest with
              | ',' :: rest' =>
                  have hshort : rest'.length < cs.length := by
                    have h := length_skipSpaces_le rest
                    simp only [hafter, List.length_cons] at h
                    omega
                  (members entries rest').widen (Nat.le_of_lt hshort)
              | '\x7d' :: rest' =>
                  some (.table entries.toTable, ⟨rest', by
                    have h := length_skipSpaces_le rest
                    simp only [hafter, List.length_cons] at h
                    omega⟩)
              | _ => none
termination_by (cs.length, 1)
decreasing_by
  · exact .left _ _ hahead
  · exact .left _ _ hshort

end

-- =========================================================== lines

/-- One line of a document that says something. -/
inductive Line where
  /-- `[path]` -/
  | header (path : List String)
  /-- `[[path]]` -/
  | element (path : List String)
  /-- `path = value` -/
  | entry (path : List String) (value : Value)

/-- A line, without its end. -/
def line : Recognizer Line
  | '[' :: '[' :: rest => do
      match ← keyPath (skipSpaces rest) with
      | (path, ']' :: ']' :: rest) => some (.element path, rest)
      | _ => none
  | '[' :: rest => do
      match ← keyPath (skipSpaces rest) with
      | (path, ']' :: rest) => some (.header path, rest)
      | _ => none
  | cs => do
      let (path, ahead) ← assignment cs
      let (value, ⟨rest, _⟩) ← value ahead
      some (.entry path value, rest)

/-- A line together with its end. -/
def wholeLine : Recognizer Line := fun cs => do
  let (line, rest) ← line cs
  some (line, ← endLine rest)

/-- A document while it is read: its entries, and the path of the table
that the lines are about. -/
structure Progress where
  entries : Entries := []
  current : List String := []

/-- What a line adds to a document. -/
def Progress.add? (progress : Progress) : Line → Option Progress
  | .header path => do
      return ⟨← progress.entries.openHeader Node.withHeader path, path⟩
  | .element path => do
      return ⟨← progress.entries.openHeader Node.withElement path, path⟩
  | .entry path value => do
      let entries ←
        progress.entries.within (Entries.put value path) progress.current
      return { progress with entries }

/-- Reads all the lines of a text. -/
def readLines (progress : Progress) (cs : List Char) : Option Progress :=
  match htrivia : skipTrivia false cs with
  | none => none
  | some [] => some progress
  | some ahead =>
      match strictly wholeLine ahead with
      | none => none
      | some (line, ⟨rest, hrest⟩) =>
          have : rest.length < cs.length :=
            Nat.lt_of_lt_of_le hrest (length_skipTrivia_le htrivia)
          match progress.add? line with
          | none => none
          | some progress => readLines progress rest
termination_by cs.length

/-- The table that a document stands for, if it is well formed. -/
def document? (text : List Char) : Option Table :=
  (readLines {} text).map fun progress => progress.entries.toTable

end LicenseExpr.Toml
