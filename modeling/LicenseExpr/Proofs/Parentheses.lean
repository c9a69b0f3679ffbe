/-
Where parentheses open in a text, counted without reading it.

The level of a place in a text is how many more parentheses open in front of
it than close there (`surplus`). `OpensBelow k` says that no parenthesis of
a text opens on level `k` or above; it can be checked part by part. On the
text of a derivation it says what the tree says by its nesting: the levels
on which parentheses open are the levels of the nodes they make.

# The first parenthesis on a level

Levels go up by one at a time, so as long as nothing opens on level `k`,
nothing opens above it either. That makes the first parenthesis on a level,
which is a matter of counting, the same thing as the end of a text that
opens below that level and stands on it.
-/
import LicenseExpr.Proofs.Derivation

namespace LicenseExpr

open Text

-- ============================================================== levels

/-- How many more parentheses a text opens than it closes. -/
def surplus (cs : List Char) : Int := cs.count '(' - cs.count ')'

section Surplus

variable {a b cs : List Char}

/-- Surpluses add up. -/
theorem surplus_append (a b : List Char) :
    surplus (a ++ b) = surplus a + surplus b := by
  simp only [surplus, List.count_append]
  omega

theorem surplus_cons (c : Char) (cs : List Char) :
    surplus (c :: cs) = surplus [c] + surplus cs :=
  surplus_append [c] cs

/-- A text has no more surplus than parentheses that open. -/
theorem surplus_le_count (cs : List Char) : surplus cs ≤ cs.count '(' := by
  unfold surplus
  omega

/-- No parenthesis stands in the text. -/
def Plain (cs : List Char) : Prop := ∀ c ∈ cs, c ≠ '(' ∧ c ≠ ')'

theorem Plain.append (ha : Plain a) (hb : Plain b) : Plain (a ++ b) :=
  List.forall_mem_append.2 ⟨ha, hb⟩

/-- Without parentheses there is no surplus. -/
theorem Plain.surplus (h : Plain cs) : surplus cs = 0 := by
  have hopen : cs.count '(' = 0 :=
    List.count_eq_zero.2 fun hmem => (h _ hmem).1 rfl
  have hclose : cs.count ')' = 0 :=
    List.count_eq_zero.2 fun hmem => (h _ hmem).2 rfl
  rw [LicenseExpr.surplus, hopen, hclose]
  rfl

/-- What is plain in front of a text makes no difference to its surplus. -/
theorem Plain.surplus_append (h : Plain a) :
    LicenseExpr.surplus (a ++ b) = LicenseExpr.surplus b := by
  rw [LicenseExpr.surplus_append, h.surplus, Int.zero_add]

/-- A class that has neither parenthesis in it makes plain texts. -/
theorem plain_of_class {q : Char → Bool} (hopen : q '(' = false)
    (hclose : q ')' = false) (h : ∀ c ∈ cs, q c = true) : Plain cs := by
  intro c hc
  exact ⟨ne_of_class hopen (h c hc), ne_of_class hclose (h c hc)⟩

/-- Blanks are plain. -/
theorem plain_of_isBlank (h : ∀ c ∈ cs, isBlank c = true) : Plain cs :=
  plain_of_class rfl rfl h

/-- So are licenses. -/
theorem plain_of_isLicenseChar (h : ∀ c ∈ cs, isLicenseChar c = true) :
    Plain cs :=
  plain_of_class rfl rfl h

end Surplus

-- ================================================ where texts open

/-- Every parenthesis that opens in the text opens on a level below `k`. -/
def OpensBelow (k : Int) (cs : List Char) : Prop :=
  ∀ read more, cs = read ++ '(' :: more → surplus read < k

section OpensBelow

variable {k : Int} {a b cs : List Char}

/-- Where a parenthesis opens in two texts, it opens in the first one or
behind it. -/
theorem split_opening {read more : List Char}
    (h : a ++ b = read ++ '(' :: more) :
    (∃ more', a = read ++ '(' :: more' ∧ more = more' ++ b)
      ∨ ∃ read', read = a ++ read' ∧ b = read' ++ '(' :: more := by
  rcases List.append_eq_append_iff.1 h with
    ⟨read', hread, hb⟩ | ⟨tail, ha, hmore⟩
  · exact Or.inr ⟨read', hread, hb⟩
  · cases tail with
    | nil =>
        rw [List.append_nil] at ha
        exact Or.inr ⟨[], by rw [ha, List.append_nil], hmore.symm⟩
    | cons c tail =>
        rw [List.cons_append, List.cons.injEq] at hmore
        obtain ⟨rfl, rfl⟩ := hmore
        exact Or.inl ⟨tail, ha, rfl⟩

/-- Behind a text in which nothing opens, a parenthesis opens in the rest. -/
theorem opening_behind {read more : List Char} (ha : '(' ∉ a)
    (h : a ++ b = read ++ '(' :: more) :
    ∃ read', read = a ++ read' ∧ b = read' ++ '(' :: more := by
  rcases split_opening h with ⟨more', hread, -⟩ | hbehind
  · rw [hread] at ha
    exact absurd (by simp) ha
  · exact hbehind

/-- Between two texts in which nothing opens, a parenthesis opens in the
text between them. -/
theorem opening_between {gap read more : List Char} (hgap : '(' ∉ gap)
    (hb : '(' ∉ b) (h : gap ++ (a ++ b) = read ++ '(' :: more) :
    ∃ read' tail, read = gap ++ read' ∧ a = read' ++ '(' :: tail := by
  obtain ⟨read', hread, hrest⟩ := opening_behind hgap h
  rcases split_opening hrest with ⟨tail, ha, -⟩ | ⟨rest, -, hrest⟩
  · exact ⟨read', tail, hread, ha⟩
  · rw [hrest] at hb
    exact absurd (by simp) hb

/-- A text in which nothing opens opens nothing on any level. -/
theorem opensBelow_of_notMem (h : '(' ∉ cs) : OpensBelow k cs := by
  intro read more hcs
  rw [hcs] at h
  exact absurd (by simp) h

theorem Plain.notMem (h : Plain cs) : '(' ∉ cs :=
  fun hmem => (h _ hmem).1 rfl

theorem Plain.opensBelow (h : Plain cs) : OpensBelow k cs :=
  opensBelow_of_notMem h.notMem

/-- In two texts parentheses open below a level if they do in both, the second
counted from where the first one ends. -/
theorem opensBelow_append :
    OpensBelow k (a ++ b)
      ↔ OpensBelow k a ∧ OpensBelow (k - surplus a) b := by
  constructor
  · intro h
    constructor
    · intro read more ha
      exact h read (more ++ b) (by rw [ha]; simp)
    · intro read more hb
      have hlt := h (a ++ read) more (by rw [hb]; simp)
      rw [surplus_append] at hlt
      omega
  · intro h read more hab
    obtain ⟨ha, hb⟩ := h
    rcases split_opening hab with ⟨more', rfl, -⟩ | ⟨read', rfl, rfl⟩
    · exact ha read more' rfl
    · have hlt := hb read' more rfl
      rw [surplus_append]
      omega

/-- A character in front matters only as a parenthesis. -/
theorem opensBelow_cons {c : Char} :
    OpensBelow k (c :: cs)
      ↔ (c = '(' → 0 < k) ∧ OpensBelow (k - surplus [c]) cs := by
  have hsingle : OpensBelow k [c] ↔ (c = '(' → 0 < k) := by
    constructor
    · intro h hc
      exact h [] [] (by rw [hc]; rfl)
    · intro h read more hcs
      cases read with
      | nil => exact h (List.cons.inj hcs).1
      | cons d read => simp at hcs
  rw [← List.singleton_append, opensBelow_append, hsingle]

/-- A plain text in front does not matter. -/
theorem Plain.opensBelow_append (h : Plain a) :
    OpensBelow k (a ++ b) ↔ OpensBelow k b := by
  rw [LicenseExpr.opensBelow_append, h.surplus, Int.sub_zero,
    and_iff_right h.opensBelow]

/-- Nothing opens below the lowest level. -/
theorem not_opensBelow_zero : ¬ OpensBelow (0 : Nat) ('(' :: cs) := by
  intro h
  exact absurd ((opensBelow_cons.1 h).1 rfl) (Int.lt_irrefl 0)

/-- Behind a parenthesis that opens there is one level less. -/
theorem opensBelow_succ {levels : Nat} :
    OpensBelow (levels + 1 : Nat) ('(' :: cs) ↔ OpensBelow levels cs := by
  have hlevel : ((levels + 1 : Nat) : Int) - surplus ['('] = levels := by
    rw [show surplus ['('] = 1 from rfl]
    omega
  rw [opensBelow_cons, hlevel, and_iff_right]
  exact fun _ => Int.natCast_succ_pos levels

/-- As long as nothing opens on a level, nothing opens above it. -/
theorem opensBelow_of_ne (hk : 0 ≤ k)
    (h : ∀ read more, cs = read ++ '(' :: more → surplus read ≠ k) :
    OpensBelow k cs := by
  induction cs generalizing k with
  | nil => exact Plain.opensBelow (List.forall_mem_nil _)
  | cons c cs ih =>
      have hc : c = '(' → 0 < k := by
        intro hc
        have hne : (0 : Int) ≠ k := h [] cs (by rw [hc]; rfl)
        omega
      refine opensBelow_cons.2 ⟨hc, ih ?_ ?_⟩
      -- the level goes up by one at most, and `k` is above the first one
      · by_cases hopen : c = '('
        · have hone : surplus [c] = 1 := by rw [hopen]; rfl
          have hpos := hc hopen
          omega
        · have hle := surplus_le_count [c]
          rw [List.count_eq_zero.2 (by simpa using Ne.symm hopen)] at hle
          omega
      · intro read more hcs hsurplus
        refine h (c :: read) more (by rw [hcs]; rfl) ?_
        rw [surplus_cons]
        omega

/-- At the offset `i` a parenthesis opens on level `k`. -/
def OpensAt (k : Int) (cs : List Char) (i : Nat) : Prop :=
  cs[i]? = some '(' ∧ surplus (cs.take i) = k

/-- The first offset at which a parenthesis opens on level `k` is `i`. -/
def FirstOpensAt (k : Int) (cs : List Char) (i : Nat) : Prop :=
  OpensAt k cs i ∧ ∀ j < i, ¬ OpensAt k cs j

instance (k : Int) (cs : List Char) (i : Nat) :
    Decidable (OpensAt k cs i) :=
  inferInstanceAs (Decidable (_ ∧ _))

instance (k : Int) (cs : List Char) (i : Nat) :
    Decidable (FirstOpensAt k cs i) :=
  inferInstanceAs (Decidable (_ ∧ ∀ j < i, _))

/-- The same by what stands in front of the parenthesis. -/
theorem opensAt_iff {i : Nat} :
    OpensAt k cs i
      ↔ ∃ read more, cs = read ++ '(' :: more ∧ read.length = i
        ∧ surplus read = k := by
  constructor
  · intro h
    obtain ⟨hget, hsurplus⟩ := h
    obtain ⟨hlt, hopen⟩ := List.getElem?_eq_some_iff.1 hget
    refine ⟨cs.take i, cs.drop (i + 1), ?_,
      List.length_take_of_le (Nat.le_of_lt hlt), hsurplus⟩
    rw [← hopen, ← List.drop_eq_getElem_cons hlt, List.take_append_drop]
  · intro h
    obtain ⟨read, more, rfl, rfl, hsurplus⟩ := h
    exact ⟨by simp, by simpa using hsurplus⟩

/-- The first parenthesis on a level is the one in front of which none opens
on that level or above. -/
theorem firstOpensAt_iff (hk : 0 ≤ k) {i : Nat} :
    FirstOpensAt k cs i
      ↔ ∃ read more, cs = read ++ '(' :: more ∧ read.length = i
        ∧ surplus read = k ∧ OpensBelow k read := by
  constructor
  · intro h
    obtain ⟨hat, hfirst⟩ := h
    obtain ⟨read, more, rfl, rfl, hsurplus⟩ := opensAt_iff.1 hat
    refine ⟨read, more, rfl, rfl, hsurplus, opensBelow_of_ne hk ?_⟩
    intro earlier between hread heq
    refine hfirst earlier.length ?_ (opensAt_iff.2
      ⟨earlier, between ++ '(' :: more, by simp [hread], rfl, heq⟩)
    simp [hread]
  · intro h
    obtain ⟨read, more, rfl, rfl, hsurplus, hbelow⟩ := h
    refine ⟨opensAt_iff.2 ⟨read, more, rfl, rfl, hsurplus⟩, ?_⟩
    intro j hj hat
    obtain ⟨earlier, between, hcs, rfl, heq⟩ := opensAt_iff.1 hat
    rcases split_opening hcs with ⟨between, hread, -⟩ | ⟨read', hread, -⟩
    · have hlt := hbelow earlier between hread
      omega
    · rw [hread, List.length_append] at hj
      omega

end OpensBelow

-- =========================================== the text of a derivation

namespace Derivation

variable {p : Phrase}

/-- The text of a license is plain. -/
theorem plain_license {l : License} (h : l.WellFormed) :
    Plain l.text.toList :=
  plain_of_isLicenseChar h.chars

/-- So is an operator. -/
theorem plain_spelling {word : String} (hword : IsOperatorWord word)
    (s : Spelling word) : Plain s.text := by
  have hletters := s.spells.isIdChar hword
  refine .append (.append (plain_of_isBlank s.gapBefore.2) ?_)
    (plain_of_isBlank s.gapAfter.2)
  exact plain_of_isLicenseChar fun c hc =>
    isLicenseChar_of_isIdChar (hletters c hc)

/-- And so is a license with its exception. -/
theorem plain_withException {l : License} (h : l.WellFormed)
    (s : Spelling "WITH") {name : String} (hname : IsExceptionName name) :
    Plain (l.text.toList ++ s.text ++ name.toList) :=
  .append (.append (plain_license h) (plain_spelling isOperatorWord_with s))
    (plain_of_isLicenseChar hname.1.chars)

/-- A derivation closes all the parentheses that it opens. -/
theorem surplus_text (d : Derivation p) : surplus d.text = 0 := by
  induction d with
  | license l wellFormed => exact (plain_license wellFormed).surplus
  | withException l wellFormed word name isName =>
      exact (plain_withException wellFormed word isName).surplus
  | parens opening inner closing ih =>
      rw [text, surplus_cons, surplus_append, surplus_append,
        surplus_append, ih, (plain_of_isBlank opening.areBlank).surplus,
        (plain_of_isBlank closing.areBlank).surplus]
      rfl
  | factor only ih => exact ih
  | and left word right ihl ihr =>
      rw [text, surplus_append, surplus_append, ihl, ihr,
        (plain_spelling isOperatorWord_and word).surplus]
      rfl
  | term only ih => exact ih
  | or left word right ihl ihr =>
      rw [text, surplus_append, surplus_append, ihl, ihr,
        (plain_spelling isOperatorWord_or word).surplus]
      rfl

/-- In a list, parentheses open below a level if they do in its operands. -/
theorem opensBelow_list {q r : Phrase} {word : String} {k : Int}
    (hword : IsOperatorWord word) (left : Derivation q)
    (s : Spelling word) (right : Derivation r) :
    OpensBelow k (left.text ++ s.text ++ right.text)
      ↔ OpensBelow k left.text ∧ OpensBelow k right.text := by
  have hplain := plain_spelling hword s
  have hzero : surplus (left.text ++ s.text) = 0 := by
    rw [surplus_append, left.surplus_text, hplain.surplus]
    rfl
  rw [opensBelow_append, opensBelow_append, hzero, Int.sub_zero,
    and_iff_left hplain.opensBelow]

/-- The levels on which a derivation opens parentheses are those of the
nodes in its tree. -/
theorem opensBelow_text (d : Derivation p) (k : Nat) :
    OpensBelow k d.text ↔ d.tree.nesting ≤ k := by
  induction d generalizing k with
  | license l wellFormed =>
      exact iff_of_true (plain_license wellFormed).opensBelow (Nat.zero_le k)
  | withException l wellFormed word name isName =>
      exact iff_of_true
        (plain_withException wellFormed word isName).opensBelow (Nat.zero_le k)
  | parens opening inner closing ih =>
      have hopening := plain_of_isBlank opening.areBlank
      have hclosing := plain_of_isBlank closing.areBlank
      have hbehind : '(' ∉ closing.chars ++ [')'] := by
        simp [hclosing.notMem]
      rw [text, List.append_assoc, List.append_assoc]
      cases k with
      | zero =>
          exact iff_of_false not_opensBelow_zero (Nat.not_succ_le_zero _)
      | succ k =>
          rw [opensBelow_succ, hopening.opensBelow_append, opensBelow_append,
            and_iff_left (opensBelow_of_notMem hbehind), ih k]
          exact Nat.succ_le_succ_iff.symm
  | factor only ih => exact ih k
  | and left word right ihl ihr =>
      rw [text, opensBelow_list isOperatorWord_and, ihl, ihr]
      exact Nat.max_le.symm
  | term only ih => exact ih k
  | or left word right ihl ihr =>
      rw [text, opensBelow_list isOperatorWord_or, ihl, ihr]
      exact Nat.max_le.symm

end Derivation

end LicenseExpr
