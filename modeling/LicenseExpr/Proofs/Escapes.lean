/-
Escaped texts and numbers, read back: where they end, and what can be told
from them.

# Reading back

What is written for a code point, or in JSON for a code unit, is taken off
the front of a text again by a function (`readQuoted`, `readJson`), whatever
stands behind it. So nothing that is written for one of them begins what is
written for another. And nothing that is written for one begins with a
quote, so a text in quotes ends at the first quote that none has taken
(`flatMap_unique`).

A number has no quotes. It ends where no digit follows.

# Surrogates

In a literal every code point is written on its own, and so the whole text
can be told from it. JSON has code units instead. Two texts with the same
units differ where one has a pair of surrogates and the other the code point
which that pair stands for, and nowhere else: they are the same if no
surrogates stand in pairs (`eq_of_utf16_eq`).

# Line feeds

A line feed has an escape like other control characters. What is written
for a text has none in it, whichever characters are said to be hidden.
-/
import Std.Data.String.ToInt
import LicenseExpr.Proofs.Word
import LicenseExpr.Text.Integer
import LicenseExpr.Text.Json
import LicenseExpr.Text.Quoted

namespace LicenseExpr.Text

-- ==================================================== hexadecimal digits

/-- A digit is written by its value. -/
theorem hexValue?_hexDigit (n : Nat) :
    hexValue? (hexDigit n) = some (n % 16) := by
  have h : ∀ d < 16, hexValue? (Nat.digitChar d) = some d := by decide
  exact h (n % 16) (Nat.mod_lt n (by decide))

/-- The number that hexadecimal digits stand for. -/
def hexNumber (digits : List Char) : Nat :=
  digits.foldl (fun n d => 16 * n + (hexValue? d).getD 0) 0

/-- Digits stand for the number, as far as there are digits enough. -/
theorem hexNumber_hex (width n : Nat) :
    hexNumber (hex width n) = n % Nat.pow 16 width := by
  induction width generalizing n with
  | zero => exact (Nat.mod_one n).symm
  | succ width ih =>
      have hlast : hexNumber (hex width (n / 16) ++ [hexDigit n])
          = 16 * hexNumber (hex width (n / 16)) + n % 16 := by
        unfold hexNumber
        rw [List.foldl_append, List.foldl_cons, List.foldl_nil,
          hexValue?_hexDigit]
        rfl
      have hpow : Nat.pow 16 (width + 1) = 16 * Nat.pow 16 width :=
        Nat.mul_comm ..
      rw [hex, hlast, ih, hpow, Nat.mod_mul]
      omega

/-- Takes off a number of so many hexadecimal digits. -/
def readHex (width : Nat) (cs : List Char) : Nat × List Char :=
  (hexNumber (cs.take width), cs.drop width)

/-- A number that fits is read back. -/
theorem readHex_hex {width n : Nat} (hn : n < Nat.pow 16 width)
    (rest : List Char) : readHex width (hex width n ++ rest) = (n, rest) := by
  unfold readHex
  rw [List.take_left' (length_hex width n), hexNumber_hex,
    Nat.mod_eq_of_lt hn, List.drop_left' (length_hex width n)]

/-- No other character is a digit. -/
theorem hexDigit_ne {c : Char} (hc : hexValue? c = none) (n : Nat) :
    hexDigit n ≠ c := by
  intro h
  have hvalue := hexValue?_hexDigit n
  rw [h, hc] at hvalue
  cases hvalue

/-- A row of digits has digits only. -/
theorem notMem_hex {c : Char} (hc : hexValue? c = none) (width n : Nat) :
    c ∉ hex width n := by
  induction width generalizing n with
  | zero => exact List.not_mem_nil
  | succ width ih =>
      rw [hex, List.mem_append, List.mem_singleton]
      rintro (hmem | heq)
      · exact ih (n / 16) hmem
      · exact hexDigit_ne hc n heq.symm

-- =============================================== texts between quotes

/-- What may stand between quotes for one thing: an escape, or a character
that is neither the quote nor a line feed. -/
inductive Escaped (quote : Char) : List Char → Prop where
  | escape (tail : List Char) : '\n' ∉ tail → Escaped quote ('\\' :: tail)
  | plain (c : Char) : c ≠ quote → c ≠ '\n' → Escaped quote [c]

section Between

variable {α : Type} {quote : Char} {code : α → List Char}
  {read : List Char → Option (Nat × List Char)}

/-- What stands between quotes for one thing does not begin with the quote. -/
theorem Escaped.exists_cons {cs : List Char} (h : Escaped quote cs)
    (hquote : quote ≠ '\\') :
    ∃ first tail, cs = first :: tail ∧ first ≠ quote := by
  cases h with
  | escape tail _ => exact ⟨'\\', tail, rfl, hquote.symm⟩
  | plain c hne _ => exact ⟨c, [], rfl, hne⟩

/-- And it has no line feed. -/
theorem Escaped.notMem {cs : List Char} (h : Escaped quote cs) :
    '\n' ∉ cs := by
  cases h with
  | escape tail htail => simp [htail]
  | plain c _ hne => simpa using hne.symm

/-- Things that stand between quotes can be told from what stands there: the
quotes end at the first one that nothing between them has taken. Each thing
is known by its number, and can be read back by it. -/
theorem flatMap_unique (number : α → Nat) (hquote : quote ≠ '\\')
    (hcode : ∀ a, Escaped quote (code a))
    (hnumber : ∀ a b, number a = number b → a = b)
    {l l' : List α} {rest rest' : List Char}
    (hread : ∀ a ∈ l, ∀ rest, read (code a ++ rest) = some (number a, rest))
    (hread' : ∀ a ∈ l', ∀ rest, read (code a ++ rest) = some (number a, rest))
    (h : l.flatMap code ++ quote :: rest
      = l'.flatMap code ++ quote :: rest') : l = l' ∧ rest = rest' := by
  induction l generalizing l' with
  | nil =>
      cases l' with
      | nil => exact ⟨rfl, (List.cons.inj h).2⟩
      | cons a' l' =>
          obtain ⟨first, tail, ha', hne⟩ := (hcode a').exists_cons hquote
          rw [List.flatMap_cons, ha'] at h
          exact absurd (List.cons.inj h).1.symm hne
  | cons a l ih =>
      cases l' with
      | nil =>
          obtain ⟨first, tail, ha, hne⟩ := (hcode a).exists_cons hquote
          rw [List.flatMap_cons, ha] at h
          exact absurd (List.cons.inj h).1 hne
      | cons a' l' =>
          rw [List.flatMap_cons, List.flatMap_cons, List.append_assoc,
            List.append_assoc] at h
          -- reading both sides takes off the first thing of each, so these
          -- are the same, and so is what is left
          have hsame := congrArg read h
          rw [hread a (.head _), hread' a' (.head _), Option.some.injEq,
            Prod.mk.injEq] at hsame
          obtain ⟨hnumbers, hbehind⟩ := hsame
          obtain rfl := hnumber a a' hnumbers
          obtain ⟨rfl, hrest⟩ := ih (fun b hb => hread b (.tail _ hb))
            (fun b hb => hread' b (.tail _ hb)) hbehind
          exact ⟨rfl, hrest⟩

/-- Things between quotes have no line feed among them. -/
theorem notMem_flatMap (hcode : ∀ a, Escaped quote (code a)) (l : List α) :
    '\n' ∉ l.flatMap code := by
  rw [List.mem_flatMap]
  rintro ⟨a, -, hmem⟩
  exact (hcode a).notMem hmem

end Between

-- ============================================================ code units

/-- A unit has sixteen bits. -/
theorem lt_of_mem_utf16 {text : CodePoints} {unit : Nat}
    (h : unit ∈ utf16 text) : unit < 0x10000 := by
  obtain ⟨p, -, hmem⟩ := List.mem_flatMap.1 h
  have hbound := p.bound
  unfold units at hmem
  split at hmem
  case isTrue hsmall => rwa [List.mem_singleton.1 hmem]
  case isFalse hlarge =>
    simp only [List.mem_cons, List.not_mem_nil, or_false] at hmem
    omega

/-- No surrogate that may begin a pair stands in front of one that may end
it. -/
def Unpaired : CodePoints → Prop
  | p :: q :: text =>
      ¬ (p.isHigh = true ∧ q.isLow = true) ∧ Unpaired (q :: text)
  | _ => True

/-- The rest of a text has no more pairs than the text. -/
theorem Unpaired.tail {p : CodePoint} {text : CodePoints}
    (h : Unpaired (p :: text)) : Unpaired text := by
  cases text with
  | nil => trivial
  | cons q text => exact h.2

/-- What is one unit in one text is no pair of units in the other. -/
theorem units_ne_of_pair {p q : CodePoint} {text text' : CodePoints}
    (hp : p.number < 0x10000) (hq : ¬ q.number < 0x10000)
    (hunpaired : Unpaired (p :: text)) :
    utf16 (p :: text) ≠ utf16 (q :: text') := by
  have hbound := q.bound
  intro h
  unfold utf16 at h
  rw [List.flatMap_cons, List.flatMap_cons, units, units, if_pos hp,
    if_neg hq] at h
  obtain ⟨hhigh, hrest⟩ := List.cons.inj h
  -- So `p` begins a pair, and what follows it ends one.
  have hp' : p.isHigh = true := CodePoint.isHigh_iff.2 (by omega)
  cases text with
  | nil => cases hrest
  | cons r text =>
      have hr := r.bound
      rw [List.flatMap_cons, units] at hrest
      split at hrest
      case isTrue =>
        have hlow := (List.cons.inj hrest).1
        exact hunpaired.1 ⟨hp', CodePoint.isLow_iff.2 (by omega)⟩
      case isFalse =>
        have hlow := (List.cons.inj hrest).1
        omega

/-- Texts without pairs of surrogates can be told from their units. -/
theorem eq_of_utf16_eq {a b : CodePoints} (ha : Unpaired a)
    (hb : Unpaired b) (h : utf16 a = utf16 b) : a = b := by
  induction a generalizing b with
  | nil =>
      cases b with
      | nil => rfl
      | cons q b =>
          unfold utf16 units at h
          rw [List.flatMap_cons] at h
          split at h <;> cases h
  | cons p a ih =>
      cases b with
      | nil =>
          unfold utf16 units at h
          rw [List.flatMap_cons] at h
          split at h <;> cases h
      | cons q b =>
          have hp := p.bound
          have hq := q.bound
          -- one unit or a pair: the same on both sides, since neither text
          -- has a pair of its own
          by_cases hsmall : p.number < 0x10000
          · by_cases hsmall' : q.number < 0x10000
            · unfold utf16 at h
              rw [List.flatMap_cons, List.flatMap_cons, units, units,
                if_pos hsmall, if_pos hsmall'] at h
              obtain ⟨hnumber, hrest⟩ := List.cons.inj h
              rw [CodePoint.ext hnumber, ih ha.tail hb.tail hrest]
            · exact absurd h (units_ne_of_pair hsmall hsmall' ha)
          · by_cases hsmall' : q.number < 0x10000
            · exact absurd h.symm (units_ne_of_pair hsmall' hsmall hb)
            · unfold utf16 at h
              rw [List.flatMap_cons, List.flatMap_cons, units, units,
                if_neg hsmall, if_neg hsmall'] at h
              obtain ⟨hhigh, hrest⟩ := List.cons.inj h
              obtain ⟨hlow, hrest⟩ := List.cons.inj hrest
              have hnumber : p.number = q.number := by omega
              rw [CodePoint.ext hnumber, ih ha.tail hb.tail hrest]

/-- There are no surrogates in an ordinary text. -/
theorem unpaired_points (text : String) : Unpaired (points text) := by
  unfold points
  induction text.toList with
  | nil => trivial
  | cons c cs ih =>
      cases cs with
      | nil => trivial
      | cons d cs =>
          refine ⟨fun hpair => ?_, ih⟩
          -- a character is no surrogate, so it begins no pair
          have hnone : (CodePoint.ofChar c).char? = none := by
            rw [CodePoint.char?_eq_none_iff]
            have hhigh := CodePoint.isHigh_iff.1 hpair.1
            omega
          rw [CodePoint.char?_ofChar] at hnone
          cases hnone

-- ======================================================= JSON characters

/-- The control characters that JSON has names for. -/
def controlOf : Char → Char
  | 'n' => '\n'
  | 'r' => '\r'
  | 't' => '\t'
  | 'b' => '\x08'
  | 'f' => '\x0c'
  | c => c

/-- Takes off what JSON has for one unit. -/
def readJson : List Char → Option (Nat × List Char)
  | '\\' :: 'u' :: cs => some (readHex 4 cs)
  | '\\' :: c :: cs => some ((controlOf c).toNat, cs)
  | c :: cs => some (c.toNat, cs)
  | [] => none

/-- A unit that is printed is the number of the character that it is printed
as. -/
theorem toNat_ofNat_of_printable {unit : Nat}
    (h : (' '.toNat ≤ unit && unit ≤ '~'.toNat) = true) :
    (Char.ofNat unit).toNat = unit := by
  rw [Bool.and_eq_true, decide_eq_true_eq, decide_eq_true_eq] at h
  have hle : unit ≤ 0x7E := h.2
  exact CodePoint.toNat_ofNat (by omega) (by omega)

/-- What JSON has for a unit is taken off as that unit. -/
theorem readJson_jsonUnit {unit : Nat} (h : unit < 0x10000)
    (rest : List Char) :
    readJson (jsonUnit unit ++ rest) = some (unit, rest) := by
  unfold jsonUnit
  split
  case isTrue hunit => rw [hunit]; rfl
  split
  case isTrue hunit => rw [hunit]; rfl
  case isFalse hbackslash =>
  split
  case isTrue hunit => rw [hunit]; rfl
  split
  case isTrue hunit => rw [hunit]; rfl
  split
  case isTrue hunit => rw [hunit]; rfl
  split
  case isTrue hunit => rw [hunit]; rfl
  split
  case isTrue hunit => rw [hunit]; rfl
  split
  case isTrue hprintable =>
    have hchar := toNat_ofNat_of_printable hprintable
    have hne : Char.ofNat unit ≠ '\\' := by
      intro heq
      rw [heq] at hchar
      exact hbackslash hchar.symm
    simp [readJson, hne, hchar]
  case isFalse =>
    show some (readHex 4 (hex 4 unit ++ rest)) = _
    rw [readHex_hex h]

/-- JSON has an escape for a unit, or the character that it is. -/
theorem jsonUnit_escaped (unit : Nat) : Escaped '"' (jsonUnit unit) := by
  have hhex : '\n' ∉ 'u' :: hex 4 unit :=
    List.not_mem_cons_of_ne_of_not_mem (by decide) (notMem_hex rfl 4 unit)
  unfold jsonUnit
  split
  case isTrue => exact .escape _ (by decide)
  case isFalse hquote =>
  split
  case isTrue => exact .escape _ (by decide)
  split
  case isTrue => exact .escape _ (by decide)
  case isFalse hfeed =>
  split
  case isTrue => exact .escape _ (by decide)
  split
  case isTrue => exact .escape _ (by decide)
  split
  case isTrue => exact .escape _ (by decide)
  split
  case isTrue => exact .escape _ (by decide)
  split
  case isTrue hprintable =>
    have hchar := toNat_ofNat_of_printable hprintable
    refine .plain _ (fun heq => hquote ?_) (fun heq => hfeed ?_)
    · rw [← hchar, heq]
    · rw [← hchar, heq]
  case isFalse => exact .escape _ hhex

section Json

variable {τ σ : Type} [Script τ] [Script σ]

/-- JSON strings that begin a text have the same units, and what stands
behind them is the same. -/
theorem json_unique {a : τ} {b : σ} {rest rest' : List Char}
    (h : (json a).toList ++ rest = (json b).toList ++ rest') :
    utf16 (Script.points a) = utf16 (Script.points b) ∧ rest = rest' := by
  unfold json at h
  rw [String.toList_ofList, String.toList_ofList, List.append_assoc,
    List.append_assoc] at h
  exact flatMap_unique id (by decide) jsonUnit_escaped
    (fun _ _ heq => heq)
    (fun _ hunit => readJson_jsonUnit (lt_of_mem_utf16 hunit))
    (fun _ hunit => readJson_jsonUnit (lt_of_mem_utf16 hunit))
    (List.cons.inj h).2

/-- A JSON string has no line feed. -/
theorem notMem_json (text : τ) : '\n' ∉ (json text).toList := by
  unfold json
  rw [String.toList_ofList]
  simp [notMem_flatMap jsonUnit_escaped]

end Json

/-- Ordinary texts can be told from their JSON strings. -/
theorem jsonString_unique {a b : String} {rest rest' : List Char}
    (h : (json a).toList ++ rest = (json b).toList ++ rest') :
    a = b ∧ rest = rest' := by
  obtain ⟨hunits, hrest⟩ := json_unique h
  exact ⟨points_injective (eq_of_utf16_eq (unpaired_points a)
    (unpaired_points b) hunits), hrest⟩

-- ==================================================== quoted characters

/-- The characters that a literal may be quoted by. -/
def IsQuote (quote : Char) : Prop := quote = '\'' ∨ quote = '"'

/-- A literal is quoted by one of the two. -/
theorem isQuote_quoteFor (text : CodePoints) : IsQuote (quoteFor text) := by
  unfold quoteFor
  split
  · exact .inr rfl
  · exact .inl rfl

theorem IsQuote.ne {quote c : Char} (h : IsQuote quote) (hc : c ≠ '\'')
    (hc' : c ≠ '"') : quote ≠ c := by
  rcases h with rfl | rfl
  · exact hc.symm
  · exact hc'.symm

/-- How many hexadecimal digits follow a mark in a literal. -/
def hexWidth? : Char → Option Nat
  | 'x' => some 2
  | 'u' => some 4
  | 'U' => some 8
  | _ => none

/-- Takes off what a literal has for one code point. -/
def readQuoted : List Char → Option (Nat × List Char)
  | '\\' :: c :: cs =>
      match hexWidth? c with
      | some width => some (readHex width cs)
      | none => some ((controlOf c).toNat, cs)
  | c :: cs => some (c.toNat, cs)
  | [] => none

/-- An escape by number is read back, if the number fits. -/
theorem readQuoted_hex {mark : Char} {width n : Nat}
    (hmark : hexWidth? mark = some width) (hn : n < Nat.pow 16 width)
    (rest : List Char) :
    readQuoted ('\\' :: mark :: hex width n ++ rest) = some (n, rest) := by
  show readQuoted ('\\' :: mark :: (hex width n ++ rest)) = _
  rw [readQuoted, hmark]
  dsimp only
  rw [readHex_hex hn]

/-- A code point that is written by its number has as many digits as it needs.
-/
theorem readQuoted_numbered (p : CodePoint) (rest : List Char) :
    readQuoted (numbered p ++ rest) = some (p.number, rest) := by
  unfold numbered
  split
  case isTrue hsmall => exact readQuoted_hex rfl hsmall rest
  split
  case isTrue hsmall => exact readQuoted_hex rfl hsmall rest
  case isFalse =>
    have hbound := p.bound
    have hsmall : p.number < Nat.pow 16 8 := by
      show p.number < 0x100000000
      omega
    exact readQuoted_hex rfl hsmall rest

/-- What a literal has for a code point is taken off as that code point. -/
theorem readQuoted_quotedPoint (hidden : Char → Bool) {quote : Char}
    (hquote : IsQuote quote) (p : CodePoint) (rest : List Char) :
    readQuoted (quotedPoint hidden quote p ++ rest)
      = some (p.number, rest) := by
  unfold quotedPoint
  split
  case h_1 => exact readQuoted_numbered p rest
  case h_2 c hc =>
    obtain rfl := CodePoint.ofChar_of_char? hc
    split
    case isTrue h =>
      rw [Bool.or_eq_true, beq_iff_eq, beq_iff_eq] at h
      rcases h with rfl | rfl
      · rcases hquote with rfl | rfl <;> rfl
      · rfl
    case isFalse h =>
    have hne : c ≠ '\\' := fun heq => h (by simp [heq])
    split
    case isTrue h => rw [eq_of_beq h]; rfl
    split
    case isTrue h => rw [eq_of_beq h]; rfl
    split
    case isTrue h => rw [eq_of_beq h]; rfl
    split
    case isTrue => exact readQuoted_numbered _ rest
    case isFalse => simp [readQuoted, hne]

theorem numbered_escaped (quote : Char) (p : CodePoint) :
    Escaped quote (numbered p) := by
  have hhex : ∀ mark width, mark ≠ '\n' → '\n' ∉ mark :: hex width p.number :=
    fun mark width hmark =>
      List.not_mem_cons_of_ne_of_not_mem hmark.symm
        (notMem_hex rfl width p.number)
  unfold numbered
  split
  case isTrue => exact .escape _ (hhex _ _ (by decide))
  split
  case isTrue => exact .escape _ (hhex _ _ (by decide))
  case isFalse => exact .escape _ (hhex _ _ (by decide))

/-- A literal has an escape for a code point, or the character that it is. -/
theorem quotedPoint_escaped (hidden : Char → Bool) {quote : Char}
    (hquote : IsQuote quote) (p : CodePoint) :
    Escaped quote (quotedPoint hidden quote p) := by
  unfold quotedPoint
  split
  case h_1 => exact numbered_escaped quote p
  case h_2 c _ =>
    split
    case isTrue h =>
      refine .escape [c] ?_
      rw [Bool.or_eq_true, beq_iff_eq, beq_iff_eq] at h
      rw [List.mem_singleton]
      rcases h with rfl | rfl
      · exact (hquote.ne (by decide) (by decide)).symm
      · decide
    case isFalse hplain =>
    split
    case isTrue => exact .escape _ (by decide)
    split
    case isTrue => exact .escape _ (by decide)
    case isFalse hfeed =>
    split
    case isTrue => exact .escape _ (by decide)
    split
    case isTrue => exact numbered_escaped quote p
    case isFalse =>
      exact .plain c (fun heq => hplain (by simp [heq]))
        (fun heq => hfeed (beq_iff_eq.2 heq))

section Quoted

variable {τ : Type} [Script τ] {hidden : Char → Bool}

/-- A literal is the code points, one by one, between two quotes. -/
theorem toList_quoted (hidden : Char → Bool) (text : τ) :
    (quoted hidden text).toList
      = quoteFor (Script.points text)
        :: ((Script.points text).flatMap
            (quotedPoint hidden (quoteFor (Script.points text)))
          ++ [quoteFor (Script.points text)]) := by
  unfold quoted
  rw [String.toList_ofList]
  rfl

/-- Literals that begin a text have the same code points, and what stands
behind them is the same, whichever characters are hidden. -/
theorem quoted_unique {a b : τ} {rest rest' : List Char}
    (h : (quoted hidden a).toList ++ rest
      = (quoted hidden b).toList ++ rest') :
    Script.points a = Script.points b ∧ rest = rest' := by
  rw [toList_quoted, toList_quoted, List.cons_append, List.cons_append,
    List.append_assoc, List.append_assoc] at h
  obtain ⟨hquote, hinside⟩ := List.cons.inj h
  have hisQuote := isQuote_quoteFor (Script.points a)
  rw [← hquote] at hinside
  exact flatMap_unique CodePoint.number
    (hisQuote.ne (by decide) (by decide))
    (quotedPoint_escaped hidden hisQuote) (fun _ _ => CodePoint.ext)
    (fun p _ => readQuoted_quotedPoint hidden hisQuote p)
    (fun p _ => readQuoted_quotedPoint hidden hisQuote p) hinside

/-- A literal has no line feed. -/
theorem notMem_quoted (hidden : Char → Bool) (text : τ) :
    '\n' ∉ (quoted hidden text).toList := by
  have hisQuote := isQuote_quoteFor (Script.points text)
  have hne : quoteFor (Script.points text) ≠ '\n' :=
    hisQuote.ne (by decide) (by decide)
  rw [toList_quoted]
  simp [hne.symm, notMem_flatMap (quotedPoint_escaped hidden hisQuote)]

end Quoted

/-- Ordinary texts can be told from their literals. -/
theorem quotedString_unique {hidden : Char → Bool} {a b : String}
    {rest rest' : List Char}
    (h : (quoted hidden a).toList ++ rest
      = (quoted hidden b).toList ++ rest') : a = b ∧ rest = rest' := by
  obtain ⟨hpoints, hrest⟩ := quoted_unique h
  exact ⟨points_injective hpoints, hrest⟩

-- ============================================================== numbers

/-- A character of a number. -/
def isNumeric (c : Char) : Bool := c.isDigit || c == '-'

/-- A number is written in digits, with a sign in front. -/
theorem isNumeric_of_mem {n : Int} {c : Char}
    (h : c ∈ (toString n).toList) : isNumeric c = true := by
  have hdigit : ∀ m : Nat, c ∈ m.repr.toList → c.isDigit = true := by
    intro m hm
    rw [Nat.toList_repr] at hm
    exact Nat.isDigit_of_mem_toDigits (by decide) (by decide) hm
  unfold isNumeric
  rw [Int.toString_eq_repr, Int.repr_eq_if] at h
  split at h
  case isTrue => simp [hdigit _ h]
  case isFalse =>
    rw [String.toList_append, List.mem_append] at h
    rcases h with h | h
    · have hminus : c = '-' := by simpa using h
      simp [hminus]
    · simp [hdigit _ h]

/-- Numbers that begin a text and end there are the same, and so is what
stands behind them. -/
theorem toString_unique {m n : Int} {rest rest' : List Char}
    (h : (toString m).toList ++ rest = (toString n).toList ++ rest')
    (hrest : NotAhead isNumeric rest) (hrest' : NotAhead isNumeric rest') :
    m = n ∧ rest = rest' := by
  obtain ⟨hmn, hbehind⟩ := run_unique h (fun _ => isNumeric_of_mem)
    (fun _ => isNumeric_of_mem) hrest hrest'
  exact ⟨Int.repr_injective (String.toList_inj.1 hmn), hbehind⟩

end LicenseExpr.Text
