/-
Texts as code points.

The texts of the library are made of characters. A text that comes from
outside may hold surrogates as well: numbers that UTF-16 uses in pairs, and
that no character has. What goes by the numbers in a text, such as quoting
it, is the same for both kinds of text (`Script`).

To a reading a surrogate is a character that expressions have no use for,
like any other one outside ASCII.
-/

namespace LicenseExpr

/-- The number of a character, or a surrogate. -/
@[ext]
structure CodePoint where
  number : Nat
  bound : number < 0x110000
deriving DecidableEq

/-- A text that may hold surrogates. -/
abbrev CodePoints : Type := List CodePoint

namespace CodePoint

/-- The number of a character. -/
def ofChar (c : Char) : CodePoint where
  number := c.toNat
  bound := by
    have h : c.toNat < 0xD800 ∨ 0xDFFF < c.toNat ∧ c.toNat < 0x110000 :=
      c.valid
    omega

instance : Coe Char CodePoint := ⟨ofChar⟩

/-- A surrogate that may begin a pair. -/
def isHigh (p : CodePoint) : Bool := 0xD800 ≤ p.number && p.number < 0xDC00

/-- A surrogate that may end a pair. -/
def isLow (p : CodePoint) : Bool := 0xDC00 ≤ p.number && p.number < 0xE000

/-- The character with that number. Surrogates have none. -/
def char? (p : CodePoint) : Option Char :=
  if p.isHigh || p.isLow then none else some (Char.ofNat p.number)

/-- What a reading sees: the character, or one outside ASCII in place of a
surrogate. -/
def char (p : CodePoint) : Char := p.char?.getD '\uFFFD'

theorem isHigh_iff {p : CodePoint} :
    p.isHigh = true ↔ 0xD800 ≤ p.number ∧ p.number < 0xDC00 := by
  simp [isHigh]

theorem isLow_iff {p : CodePoint} :
    p.isLow = true ↔ 0xDC00 ≤ p.number ∧ p.number < 0xE000 := by
  simp [isLow]

/-- The surrogates have no characters, and nothing else has none. -/
theorem char?_eq_none_iff {p : CodePoint} :
    p.char? = none ↔ 0xD800 ≤ p.number ∧ p.number < 0xE000 := by
  have hsurrogate : (p.isHigh || p.isLow) = true
      ↔ 0xD800 ≤ p.number ∧ p.number < 0xE000 := by
    rw [Bool.or_eq_true, isHigh_iff, isLow_iff]
    omega
  unfold char?
  rw [← hsurrogate]
  split
  case isTrue h => exact iff_of_true rfl h
  case isFalse h => exact iff_of_false nofun h

/-- A number that is no surrogate has a character. -/
theorem toNat_ofNat {n : Nat} (hbound : n < 0x110000)
    (hsurrogate : ¬ (0xD800 ≤ n ∧ n < 0xE000)) : (Char.ofNat n).toNat = n := by
  have hvalid : n.isValidChar := by
    unfold Nat.isValidChar
    omega
  unfold Char.ofNat
  rw [dif_pos hvalid]
  rfl

/-- A code point that has a character is the number of that character. -/
theorem ofChar_of_char? {p : CodePoint} {c : Char} (h : p.char? = some c) :
    ofChar c = p := by
  have hsurrogate : ¬ (0xD800 ≤ p.number ∧ p.number < 0xE000) := by
    rw [← char?_eq_none_iff, h]
    nofun
  have hc : Char.ofNat p.number = c := by
    unfold char? at h
    split at h
    case isTrue => cases h
    case isFalse => exact Option.some.inj h
  obtain ⟨number, bound⟩ := p
  rw [← hc, ofChar, CodePoint.mk.injEq]
  exact toNat_ofNat bound hsurrogate

@[simp] theorem number_ofChar (c : Char) : (ofChar c).number = c.toNat := rfl

@[simp] theorem char?_ofChar (c : Char) : (ofChar c).char? = some c := by
  cases h : (ofChar c).char? with
  | none =>
      have hvalid : c.toNat < 0xD800 ∨ 0xDFFF < c.toNat ∧ c.toNat < 0x110000 :=
        c.valid
      rw [char?_eq_none_iff, number_ofChar] at h
      omega
  | some d =>
      have hnumber := congrArg number (ofChar_of_char? h)
      rw [number_ofChar, number_ofChar, Char.toNat_inj] at hnumber
      rw [hnumber]

@[simp] theorem char_ofChar (c : Char) : (ofChar c).char = c := by
  unfold char
  rw [char?_ofChar]
  rfl

theorem ofChar_injective : Function.Injective ofChar := fun c d h => by
  rw [← char_ofChar c, h, char_ofChar]

@[simp] theorem ofChar_inj {c d : Char} : ofChar c = ofChar d ↔ c = d :=
  ⟨fun h => ofChar_injective h, congrArg ofChar⟩

end CodePoint

/-- A kind of text: its code points, and the characters that a reading
sees. -/
class Script (τ : Type) where
  points : τ → CodePoints
  chars : τ → List Char
  chars_eq : ∀ text, chars text = (points text).map CodePoint.char

namespace Text

/-- The code points of a text without surrogates. -/
def points (text : String) : CodePoints := text.toList.map CodePoint.ofChar

instance : Script String where
  points := points
  chars := String.toList
  chars_eq text := by
    simp [points, List.map_map, Function.comp_def]

instance : Script CodePoints where
  points text := text
  chars text := text.map CodePoint.char
  chars_eq _ := rfl

@[simp] theorem map_char_points (text : String) :
    (points text).map CodePoint.char = text.toList :=
  (Script.chars_eq text).symm

@[simp] theorem points_append (a b : String) :
    points (a ++ b) = points a ++ points b := by
  simp [points]

/-- What a reading sees of a beginning is the beginning of what it sees. -/
theorem chars_take {τ : Type} [Script τ] (text : τ) (n : Nat) :
    Script.chars ((Script.points text).take n : CodePoints)
      = (Script.chars text).take n := by
  show ((Script.points text).take n).map CodePoint.char = _
  rw [List.map_take, ← Script.chars_eq]

@[simp] theorem points_ofList (cs : List Char) :
    points (String.ofList cs) = cs.map CodePoint.ofChar := by
  simp [points]

theorem points_injective : Function.Injective points := fun _ _ h =>
  String.toList_inj.1
    ((List.map_inj_right fun _ _ hcd => CodePoint.ofChar_injective hcd).1 h)

@[simp] theorem mem_points {c : Char} {text : String} :
    CodePoint.ofChar c ∈ points text ↔ c ∈ text.toList := by
  simp [points]

end Text

end LicenseExpr
