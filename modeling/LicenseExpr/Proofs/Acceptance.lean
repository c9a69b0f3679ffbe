/-
Which texts are read as expressions: exactly those of the grammar, nested no
deeper than a reading may go, and each as the one tree the grammar gives it.

A reading opens as many levels of parentheses as were asked for, or as the
stack allows if that is less. Everything else about it is the rule for
expressions between blanks, so soundness and completeness of the rule are
soundness and completeness of reading. Unambiguity comes from completeness:
a text with two derivations would be read as both trees.
-/
import LicenseExpr.Proofs.Descent
import LicenseExpr.Reading

namespace LicenseExpr

open Text

instance decidableEqExcept {ε α : Type} [DecidableEq ε] [DecidableEq α] :
    DecidableEq (Except ε α)
  | .ok a, .ok b => decidable_of_iff (a = b) (by simp)
  | .error e, .error f => decidable_of_iff (e = f) (by simp)
  | .ok _, .error _ => isFalse nofun
  | .error _, .ok _ => isFalse nofun

-- ============================================================== levels

namespace Stack

variable {stack : Stack} {maxDepth deeper : Int} {depth : Nat}

/-- A reading that asks for `maxDepth` may open so many levels of
parentheses: it is held to no lower depth, and the stack bears them. -/
structure Reaches (stack : Stack) (maxDepth : Int) (depth : Nat) : Prop where
  le_limit : depth ≤ (min maxDepth stack.readingLimit).toNat
  bears : stack.bears depth = true

/-- A stack that bears some levels bears fewer. -/
theorem bears_zero_of_bears (h : stack.bears depth = true) :
    stack.bears 0 = true := by
  unfold bears at h ⊢
  cases hroom : stack.room with
  | none => rfl
  | some room =>
      simp only [hroom, decide_eq_true_eq] at h ⊢
      exact Nat.zero_lt_of_lt h

/-- Asking for more reaches no fewer levels. -/
theorem Reaches.mono (h : stack.Reaches maxDepth depth)
    (hle : maxDepth ≤ deeper) : stack.Reaches deeper depth where
  le_limit := by
    have hlimit := h.le_limit
    omega
  bears := h.bears

/-- The levels are reached that a descent is given, if it begins at all. -/
theorem reaches_iff :
    stack.Reaches maxDepth depth
      ↔ stack.bears 0 = true ∧ depth ≤ stack.levels maxDepth := by
  have hroom : stack.Reaches maxDepth depth
      ↔ depth ≤ (min maxDepth stack.readingLimit).toNat
        ∧ stack.bears depth = true :=
    ⟨fun h => ⟨h.le_limit, h.bears⟩, fun h => ⟨h.1, h.2⟩⟩
  rw [hroom]
  unfold bears levels
  cases stack.room with
  | none => exact ⟨fun h => ⟨rfl, h.1⟩, fun h => ⟨h.2, rfl⟩⟩
  | some room =>
      simp only [decide_eq_true_eq]
      omega

/-- Where no limit is imposed and the stack is not deep yet, a reading goes
as deep as it is asked to and the stack allows. -/
theorem levels_eq (frames maxDepth : Int) :
    (levels { frames } maxDepth : Int)
      = max 0 (min maxDepth (depthLimit { frames })) := by
  show ((min maxDepth (depthLimit { frames })).toNat : Int) = _
  omega

/-- Where no limit is imposed, the lower of the two depths is reached. -/
theorem reaches_frames_iff {frames : Int} :
    Reaches { frames } maxDepth depth
      ↔ (depth : Int) ≤ max 0 (min maxDepth (depthLimit { frames })) := by
  rw [reaches_iff, ← levels_eq frames maxDepth, Int.ofNat_le]
  exact and_iff_right rfl

/-- Asking for more gives no fewer levels. -/
theorem levels_mono (frames : Int) (h : maxDepth ≤ deeper) :
    levels { frames } maxDepth ≤ levels { frames } deeper := by
  have hlevels := levels_eq frames maxDepth
  have hdeeper := levels_eq frames deeper
  omega

end Stack

-- ===================================================== what reading does

namespace Expr

variable {τ : Type} [Script τ]

/-- The offset in `text` from which on `ahead` is left. -/
def offset (text : τ) (ahead : List Char) : Nat :=
  (Script.chars text).length - ahead.length

/-- How a reading ends, by what the rule for expressions makes of the text
behind the first blanks: the event and the result. -/
def ending (text : τ) (maxDepth : Int) (stack : Stack) :
    Outcome → Event τ × Except (ParseError τ) Expr
  | .found expr rest =>
      match skipBlanks rest with
      | [] => (.parsed text, .ok expr)
      | ahead =>
          (.parseFailed text (offset text ahead),
            .error ⟨text, offset text ahead⟩)
  | .absent =>
      (.parseFailed text (offset text (skipBlanks (Script.chars text))),
        .error ⟨text, offset text (skipBlanks (Script.chars text))⟩)
  | .tooDeep ahead =>
      if stack.bears (min maxDepth stack.readingLimit).toNat then
        (.depthExceeded text (offset text ahead)
            (min maxDepth stack.readingLimit),
          .error ⟨text, offset text ahead⟩)
      else
        (.stackExhausted text (min maxDepth stack.readingLimit),
          .error ⟨text, offset text (skipBlanks (Script.chars text))⟩)

/-- What is made of a text behind its first blanks. -/
def outcome (text : τ) (maxDepth : Int) (stack : Stack) : Outcome :=
  descend stack maxDepth (skipBlanks (Script.chars text))

/-- A reading is what the rule for expressions makes of the text, and its
ending. -/
theorem parse_eq (text : τ) (maxDepth : Int) (stack : Stack) :
    parse text maxDepth stack =
      let e := ending text maxDepth stack (outcome text maxDepth stack)
      ⟨(if stack.readingLimit < maxDepth then
          [.depthLowered maxDepth stack.readingLimit] else []) ++ [e.1],
        e.2⟩ := by
  unfold parse outcome
  dsimp only
  generalize descend stack maxDepth (skipBlanks (Script.chars text)) = o
  cases o with
  | found expr rest =>
      dsimp only [ending]
      generalize skipBlanks rest = ahead
      cases ahead <;> split <;> rfl
  | absent => split <;> rfl
  | tooDeep ahead =>
      dsimp only [ending]
      by_cases hbears : stack.bears (min maxDepth stack.readingLimit).toNat
      · simp only [if_pos hbears]
        split <;> rfl
      · simp only [if_neg hbears]
        split <;> rfl

/-- The result of a reading is that of its ending. -/
theorem parse_value (text : τ) (maxDepth : Int) (stack : Stack) :
    (parse text maxDepth stack).value
      = (ending text maxDepth stack (outcome text maxDepth stack)).2 := by
  rw [parse_eq]

variable {text : τ} {maxDepth : Int} {stack : Stack} {t : Expr}

/-- Where the stack bears a reading at all, what is made of the text is what
the rule for expressions makes of it. -/
theorem outcome_of_bears (h : stack.bears 0 = true) :
    outcome text maxDepth stack
      = (Grammar.expression (stack.levels maxDepth)
          (skipBlanks (Script.chars text))).val :=
  if_pos h

/-- Something that is found is found by the rule for expressions, and so is
that there is nothing. -/
theorem outcome_eq_iff {o : Outcome} (ho : ∀ ahead, o ≠ .tooDeep ahead) :
    outcome text maxDepth stack = o
      ↔ stack.bears 0 = true
        ∧ (Grammar.expression (stack.levels maxDepth)
            (skipBlanks (Script.chars text))).val = o := by
  by_cases hbears : stack.bears 0 = true
  · rw [outcome_of_bears hbears]
    exact (and_iff_right hbears).symm
  · have hdeep : outcome text maxDepth stack
        = .tooDeep (skipBlanks (Script.chars text)) := if_neg hbears
    exact iff_of_false (fun h => ho _ (h.symm.trans hdeep))
      fun h => hbears h.1

theorem outcome_eq_found_iff {rest : List Char} :
    outcome text maxDepth stack = .found t rest
      ↔ stack.bears 0 = true
        ∧ (Grammar.expression (stack.levels maxDepth)
            (skipBlanks (Script.chars text))).val = .found t rest :=
  outcome_eq_iff fun _ h => nomatch h

/-- A reading succeeds exactly where nothing but blanks is left. -/
theorem parse_eq_ok_iff_found :
    (parse text maxDepth stack).value = .ok t ↔
      ∃ rest, outcome text maxDepth stack = .found t rest
        ∧ skipBlanks rest = [] := by
  rw [parse_value]
  constructor
  · intro h
    -- of all the endings only that of a text found up to its end is a success
    unfold ending at h
    split at h
    case h_1 expr rest hfound =>
      split at h
      case h_1 hend => cases h; exact ⟨rest, hfound, hend⟩
      case h_2 => cases h
    case h_2 => cases h
    case h_3 => split at h <;> cases h
  · intro h
    obtain ⟨rest, hfound, hend⟩ := h
    simp only [hfound, ending, hend]

/-- A text is read as a tree exactly if the grammar makes the text with that
tree and the reading may go as deep as the tree nests. -/
theorem parse_eq_ok_iff :
    (parse text maxDepth stack).value = .ok t ↔
      ∃ s : Sentence, s.text = Script.chars text ∧ s.tree = t
        ∧ stack.Reaches maxDepth t.nesting := by
  rw [parse_eq_ok_iff_found]
  constructor
  · intro h
    obtain ⟨rest, hfound, hend⟩ := h
    obtain ⟨hbears, hfound⟩ := outcome_eq_found_iff.1 hfound
    obtain ⟨leading, body, htext, hleading, -, hbody⟩ :=
      exists_skipBlanks (Script.chars text)
    rw [hbody] at hfound
    obtain ⟨d, rfl, rfl, hnesting⟩ :=
      Grammar.rule_sound _ .expression _ _ _ hfound
    obtain ⟨trailing, tail, rfl, htrailing, -, htail⟩ :=
      exists_skipBlanks rest
    obtain rfl : tail = [] := htail.symm.trans hend
    rw [List.append_nil] at htext
    exact ⟨⟨⟨leading, hleading⟩, d, ⟨trailing, htrailing⟩⟩,
      by rw [htext, ← List.append_assoc]; rfl, rfl,
      Stack.reaches_iff.2 ⟨hbears, hnesting⟩⟩
  · intro h
    obtain ⟨s, htext, rfl, hreaches⟩ := h
    obtain ⟨hbears, hnesting⟩ := Stack.reaches_iff.1 hreaches
    refine ⟨s.trailing.chars, outcome_eq_found_iff.2 ⟨hbears, ?_⟩, ?_⟩
    · rw [← htext, s.skipBlanks_text]
      exact Grammar.expression_text s.body hnesting
        (closed_of_blank s.trailing.areBlank)
    · have h := skipBlanks_run s.trailing.areBlank notAhead_nil
      rwa [List.append_nil] at h

end Expr

/-- The grammar is unambiguous: a text has one derivation at most. -/
theorem Sentence.eq_of_text_eq {s s' : Sentence} (h : s.text = s'.text) :
    s = s' := by
  refine Sentence.eq_of_tree_eq ?_ h
  have hfound (s : Sentence) {levels : Nat}
      (hnesting : s.tree.nesting ≤ levels) :
      (Grammar.expression levels (skipBlanks s.text)).val
        = .found s.tree s.trailing.chars := by
    rw [s.skipBlanks_text]
    exact Grammar.expression_text s.body hnesting
      (closed_of_blank s.trailing.areBlank)
  -- as many levels as either tree needs, so that the same reading finds both
  have hs := hfound s (Nat.le_max_left _ s'.tree.nesting)
  rw [h, hfound s' (Nat.le_max_right s.tree.nesting _)] at hs
  injection hs with htree _
  exact htree.symm

/-- A text is read as a tree exactly if it is an expression of the grammar
between blanks, with that tree, nested no deeper than was asked for and the
stack allows; and the grammar derives every text in one way at most. -/
theorem parse_iff_derivation {τ : Type} [Script τ] (text : τ)
    (maxDepth frames : Int) :
    (∀ t, (Expr.parse text maxDepth { frames }).value = .ok t ↔
      ∃ s : Sentence, s.text = Script.chars text ∧ s.tree = t
        ∧ (t.nesting : Int)
          ≤ max 0 (min maxDepth (Stack.depthLimit { frames })))
    ∧ Subsingleton { s : Sentence // s.text = Script.chars text } := by
  constructor
  · intro t
    rw [Expr.parse_eq_ok_iff]
    simp only [Stack.reaches_frames_iff]
  · exact ⟨fun s s' =>
      Subtype.ext (Sentence.eq_of_text_eq (s.property.trans s'.property.symm))⟩

end LicenseExpr
