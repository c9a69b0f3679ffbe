/-
What a reading reports: first its depth if that was lowered, then how it
ended, and nothing else.

# Reporting on the spot

Reading reports how it ended when it has ended. A parenthesis that opens one
level too many could as well be reported in front of it, deep in the
descent, with rules on the way that go on where an operand of theirs failed.
So the descent is told here once more with rules that report (`Reporting`).
What a rule reports stays reported, whatever the rule above makes of it.

# Silence

A reporting rule answers what its silent twin answers, and reports just what
the answer tells: a parenthesis too deep once, anything else not at all
(`ReportingRule.Follows`). Each way to make a rule of others carries this
on. For the loop over operands it needs that nothing goes on behind a
parenthesis that is too deep, and that what failed was silent. A whole
reading by the reporting rules is then the same as the reading itself.

# Within the limit

A depth within the limit of the stack is not lowered, so only the ending is
reported, and the ending is the same on every larger stack.
-/
import LicenseExpr.Proofs.Acceptance

namespace LicenseExpr

open Text Recognizer

variable {τ : Type}

/-- A rule of the grammar that may report on the way, with texts of the kind
`τ`. -/
abbrev ReportingRule (τ : Type) : Type :=
  (cs : List Char) → Logged τ { o : Outcome // o.Within cs.length }

/-- The same run, in front of no fewer characters. -/
def Logged.widen {m n : Nat} (hle : m ≤ n)
    (run : Logged τ { o : Outcome // o.Within m }) :
    Logged τ { o : Outcome // o.Within n } := do
  let ⟨o, ho⟩ ← run
  return ⟨o, ho.mono hle⟩

/-- What is found in parentheses leaves a rest shorter than the text. -/
theorem Outcome.within_parens {inner : Expr} {ahead rest rest' : List Char}
    (hrest : rest.length < (skipBlanks ahead).length)
    (hclose : skipBlanks rest = ')' :: rest') :
    (found (.parens inner) rest').Within ('(' :: ahead).length := by
  have hahead := length_skipBlanks_le ahead
  have hskip := length_skipBlanks_le rest
  rw [hclose, List.length_cons] at hskip
  show rest'.length < ahead.length + 1
  omega

namespace Reporting

-- ============================================ the descent that reports

/-- Goes on from `first` as `Grammar.joinOperands` does. What an operand
reports stays reported, also where it is not joined. -/
def joinOperands (word : String) (join : Expr → Expr → Expr)
    (operand : ReportingRule τ) (first : Expr) (cs : List Char) :
    Logged τ { o : Outcome // o.Within (cs.length + 1) } :=
  match hword : operator word cs with
  | none => return ⟨.found first cs, Nat.lt_succ_self _⟩
  | some ((), ahead) => do
      have hahead : ahead.length < cs.length := operator_consumes word hword
      match ← operand ahead with
      | ⟨.absent, _⟩ => return ⟨.found first cs, Nat.lt_succ_self _⟩
      | ⟨.tooDeep deep, _⟩ => return ⟨.tooDeep deep, trivial⟩
      | ⟨.found next rest, hrest⟩ =>
          have hlt : rest.length < cs.length := Nat.lt_trans hrest hahead
          (joinOperands word join operand (join first next) rest).widen
            (Nat.le_succ_of_le hlt)
termination_by cs.length

/-- One operand, and all the further ones that `word` joins to it. -/
def operands (word : String) (join : Expr → Expr → Expr)
    (operand : ReportingRule τ) : ReportingRule τ := fun cs => do
  match ← operand cs with
  | ⟨.found first rest, hrest⟩ =>
      (joinOperands word join operand first rest).widen hrest
  | ⟨.absent, _⟩ => return ⟨.absent, trivial⟩
  | ⟨.tooDeep deep, _⟩ => return ⟨.tooDeep deep, trivial⟩

/-- What `inside` describes, in parentheses. -/
def parenthesized (inside : ReportingRule τ) : ReportingRule τ := fun cs =>
  match cs with
  | '(' :: ahead => do
      match ← inside (skipBlanks ahead) with
      | ⟨.found inner rest, hrest⟩ =>
          match hclose : skipBlanks rest with
          | ')' :: rest' =>
              return ⟨.found (.parens inner) rest',
                Outcome.within_parens hrest hclose⟩
          | _ => return ⟨.absent, trivial⟩
      | ⟨.absent, _⟩ => return ⟨.absent, trivial⟩
      | ⟨.tooDeep deep, _⟩ => return ⟨.tooDeep deep, trivial⟩
  | _ => return ⟨.absent, trivial⟩

/-- Refuses a parenthesis that opens, and reports it. -/
def noParenthesis (report : List Char → Logged τ Unit) : ReportingRule τ :=
  fun cs =>
    match cs with
    | '(' :: ahead => do
        report ('(' :: ahead)
        return ⟨.tooDeep ('(' :: ahead), trivial⟩
    | _ => return ⟨.absent, trivial⟩

/-- A license with or without an exception; else what `group` makes of a
parenthesis. -/
def factorOf (group : ReportingRule τ) : ReportingRule τ := fun cs =>
  match h : Grammar.licensed cs with
  | some (expr, rest) =>
      return ⟨.found expr rest, Grammar.licensed_consumes h⟩
  | none => group cs

/-- Factors joined by AND. -/
def termOf (group : ReportingRule τ) : ReportingRule τ :=
  operands "AND" .and (factorOf group)

/-- Terms joined by OR. -/
def expressionOf (group : ReportingRule τ) : ReportingRule τ :=
  operands "OR" .or (termOf group)

/-- An expression in parentheses, where `levels` levels may be opened and
one more is reported. -/
def group (report : List Char → Logged τ Unit) :
    (levels : Nat) → ReportingRule τ
  | 0, cs => noParenthesis report cs
  | levels + 1, cs => parenthesized (expressionOf (group report levels)) cs

end Reporting

/-- The reporting rule for a kind of phrase, where `levels` levels of
parentheses may be opened and one more is reported. -/
def Phrase.reportingRule (report : List Char → Logged τ Unit) (levels : Nat) :
    Phrase → ReportingRule τ
  | factor => Reporting.factorOf (Reporting.group report levels)
  | term => Reporting.termOf (Reporting.group report levels)
  | expression => Reporting.expressionOf (Reporting.group report levels)

-- ======================================================= what is told

/-- What an outcome tells: a parenthesis that is too deep is reported. -/
def Outcome.told (report : List Char → Logged τ Unit) :
    Outcome → List (Event τ)
  | found _ _ => []
  | absent => []
  | tooDeep ahead => (report ahead).events

/-- The result is the outcome, and what was reported is what that tells. -/
def Logged.Tells {P : Outcome → Prop} (run : Logged τ { o : Outcome // P o })
    (report : List Char → Logged τ Unit) (o : Outcome) : Prop :=
  run.events = o.told report ∧ run.value.val = o

/-- A run tells the same in front of more characters. -/
theorem Logged.Tells.widen {m n : Nat}
    {run : Logged τ { o : Outcome // o.Within m }}
    {report : List Char → Logged τ Unit} {o : Outcome}
    (h : run.Tells report o) (hle : m ≤ n) : (run.widen hle).Tells report o :=
  ⟨(List.append_nil _).trans h.1, h.2⟩

/-- The reporting rule answers what the rule answers, and reports what that
tells. -/
def ReportingRule.Follows (report : List Char → Logged τ Unit)
    (reporting : ReportingRule τ) (rule : Rule) : Prop :=
  ∀ cs, (reporting cs).Tells report (rule cs).val

/-- In place of a reporting rule there can be the rule and what is told. -/
theorem ReportingRule.Follows.eq {report : List Char → Logged τ Unit}
    {reporting : ReportingRule τ} {rule : Rule}
    (h : reporting.Follows report rule) (cs : List Char) :
    reporting cs = ⟨(rule cs).val.told report, rule cs⟩ := by
  have hvalue : (reporting cs).value = rule cs := Subtype.ext (h cs).2
  rw [← (h cs).1, ← hvalue]

/-- What comes next reports behind what was reported. -/
theorem Logged.bind_mk {α β : Type} (events : List (Event τ)) (value : α)
    (next : α → Logged τ β) :
    ((⟨events, value⟩ : Logged τ α) >>= next)
      = ⟨events ++ (next value).events, (next value).value⟩ := rfl

namespace Reporting

variable {report : List Char → Logged τ Unit}
  {operand bracket : ReportingRule τ} {rule : Rule}

/-- The loop reports at most the parenthesis that ends it: what it goes on
behind was silent. -/
theorem joinOperands_tells (h : operand.Follows report rule)
    (word : String) (join : Expr → Expr → Expr) (first : Expr)
    (cs : List Char) :
    (joinOperands word join operand first cs).Tells report
      (Grammar.joinOperands word join rule first cs).val := by
  -- The principle for the silent loop says nothing of this one, so both are
  -- opened here, side by side.
  suffices key : ∀ (n : Nat) (first : Expr) (cs : List Char),
      cs.length = n →
      (joinOperands word join operand first cs).Tells report
        (Grammar.joinOperands word join rule first cs).val from
    key _ first cs rfl
  intro n
  induction n using Nat.strongRecOn with
  | ind n ih =>
      intro first cs hlen
      subst hlen
      rw [Grammar.joinOperands_val, joinOperands]
      split
      case h_1 hop => simp only [hop]; exact ⟨rfl, rfl⟩
      case h_2 ahead hop =>
        simp only [hop, h.eq ahead, Logged.bind_mk]
        -- an absent operand was silent; behind one that is found, the loop
        -- reports what it reports from there
        obtain ⟨o, hrest⟩ := rule ahead
        cases o with
        | absent => exact ⟨rfl, rfl⟩
        | tooDeep deep => exact ⟨List.append_nil _, rfl⟩
        | found next rest =>
            have hlt : rest.length < cs.length :=
              Nat.lt_trans hrest (operator_consumes word hop)
            exact (ih _ hlt (join first next) rest rfl).widen
              (Nat.le_succ_of_le hlt)

/-- A list is silent if its first operand is, and then the loop. -/
theorem operands_follows (h : operand.Follows report rule) (word : String)
    (join : Expr → Expr → Expr) :
    (operands word join operand).Follows report
      (Grammar.operands word join rule) := by
  intro cs
  rw [Grammar.operands_val]
  unfold operands
  rw [h.eq cs, Logged.bind_mk]
  obtain ⟨o, hrest⟩ := rule cs
  cases o with
  | absent => exact ⟨rfl, rfl⟩
  | tooDeep deep => exact ⟨List.append_nil _, rfl⟩
  | found first rest =>
      exact (joinOperands_tells h word join first rest).widen hrest

/-- A license is found in silence. -/
theorem factorOf_follows (h : bracket.Follows report rule) :
    (factorOf bracket).Follows report (Grammar.factorOf rule) := by
  intro cs
  rw [Grammar.factorOf_val]
  unfold factorOf
  split
  case h_1 expr rest hlicensed => simp only [hlicensed]; exact ⟨rfl, rfl⟩
  case h_2 hlicensed => simp only [hlicensed]; exact h cs

/-- Parentheses report what is reported inside, also if they are not closed.
-/
theorem parenthesized_follows (h : operand.Follows report rule) :
    (parenthesized operand).Follows report (Grammar.parenthesized rule) := by
  intro cs
  by_cases hopen : ∃ ahead, cs = '(' :: ahead
  · obtain ⟨ahead, rfl⟩ := hopen
    rw [Grammar.parenthesized_val]
    unfold parenthesized
    simp only [h.eq (skipBlanks ahead), Logged.bind_mk]
    obtain ⟨o, ho⟩ := rule (skipBlanks ahead)
    cases o with
    | absent => exact ⟨rfl, rfl⟩
    | tooDeep deep => exact ⟨List.append_nil _, rfl⟩
    | found inner rest =>
        dsimp only
        split
        case h_1 hclose => simp only [hclose]; exact ⟨rfl, rfl⟩
        case h_2 hclose =>
          split
          case h_1 rest' hclose' => exact (hclose rest' hclose').elim
          case h_2 => exact ⟨rfl, rfl⟩
  · have hrun : parenthesized operand cs = pure ⟨.absent, trivial⟩ := by
      unfold parenthesized
      split
      case h_1 ahead => exact (hopen ⟨ahead, rfl⟩).elim
      case h_2 => rfl
    have hrule : (Grammar.parenthesized rule cs).val = .absent := by
      rw [Grammar.parenthesized_val]
      split
      case h_1 ahead => exact (hopen ⟨ahead, rfl⟩).elim
      case h_2 => rfl
    rw [hrun, hrule]
    exact ⟨rfl, rfl⟩

/-- Only where no level is left is anything reported. -/
theorem noParenthesis_follows :
    (noParenthesis report).Follows report Grammar.noParenthesis := by
  intro cs
  by_cases hopen : ∃ ahead, cs = '(' :: ahead
  · obtain ⟨ahead, rfl⟩ := hopen
    exact ⟨List.append_nil _, rfl⟩
  · have hrun : noParenthesis report cs = pure ⟨.absent, trivial⟩ := by
      unfold noParenthesis
      split
      case h_1 ahead => exact (hopen ⟨ahead, rfl⟩).elim
      case h_2 => rfl
    have hrule : Grammar.noParenthesis cs = ⟨.absent, trivial⟩ := by
      unfold Grammar.noParenthesis
      split
      case h_1 ahead => exact (hopen ⟨ahead, rfl⟩).elim
      case h_2 => rfl
    rw [hrun, hrule]
    exact ⟨rfl, rfl⟩

/-- An expression is a list of lists. -/
theorem expressionOf_follows (h : bracket.Follows report rule) :
    (expressionOf bracket).Follows report (Grammar.expressionOf rule) :=
  operands_follows (operands_follows (factorOf_follows h) "AND" .and)
    "OR" .or

/-- On every level the rules follow. -/
theorem group_follows (levels : Nat) :
    (group report levels).Follows report (Grammar.group levels) := by
  induction levels with
  | zero => exact noParenthesis_follows
  | succ levels ih => exact parenthesized_follows (expressionOf_follows ih)

end Reporting

/-- The reporting rules follow the grammar. -/
theorem Phrase.reportingRule_follows (report : List Char → Logged τ Unit)
    (levels : Nat) (p : Phrase) :
    (p.reportingRule report levels).Follows report (p.rule levels) := by
  have hgroup : (Reporting.group report levels).Follows report
      (Grammar.group levels) := Reporting.group_follows levels
  cases p with
  | factor => exact Reporting.factorOf_follows hgroup
  | term =>
      exact Reporting.operands_follows (Reporting.factorOf_follows hgroup)
        "AND" .and
  | expression => exact Reporting.expressionOf_follows hgroup

-- ======================================================= whole readings

namespace Expr

variable [Script τ]

/-- Refuses a parenthesis that opens one level too many, and reports it
unless it is the stack that has run out. -/
def refuse (text : τ) (maxDepth : Int) (stack : Stack)
    (ahead : List Char) : Logged τ Unit := do
  let depth := min maxDepth stack.readingLimit
  if stack.bears depth.toNat then
    Logged.report (.depthExceeded text (offset text ahead) depth)

/-- The descent into a text, if the stack bears one at all. -/
def descendReporting (text : τ) (maxDepth : Int) (stack : Stack) :
    Logged τ Outcome := do
  let body := skipBlanks (Script.chars text)
  if stack.bears 0 then
    let reading ← Phrase.expression.reportingRule
      (refuse text maxDepth stack) (stack.levels maxDepth) body
    return reading.val
  else return .tooDeep body

/-- What is left to report and to answer when the descent has ended. -/
def settle (text : τ) (maxDepth : Int) (stack : Stack) :
    Outcome → Logged τ (Except (ParseError τ) Expr)
  | .found expr rest =>
      match skipBlanks rest with
      | [] => do
          Logged.report (.parsed text)
          return .ok expr
      | ahead => do
          Logged.report (.parseFailed text (offset text ahead))
          return .error ⟨text, offset text ahead⟩
  | .absent => do
      let ahead := skipBlanks (Script.chars text)
      Logged.report (.parseFailed text (offset text ahead))
      return .error ⟨text, offset text ahead⟩
  | .tooDeep ahead => do
      let depth := min maxDepth stack.readingLimit
      if stack.bears depth.toNat then
        return .error ⟨text, offset text ahead⟩
      Logged.report (.stackExhausted text depth)
      return .error ⟨text, offset text (skipBlanks (Script.chars text))⟩

/-- Reads as `parse` does, but a parenthesis that opens one level too many
is reported where the descent comes to it. -/
def parseReporting (text : τ) (maxDepth : Int) (stack : Stack) :
    Logged τ (Except (ParseError τ) Expr) := do
  if stack.readingLimit < maxDepth then
    Logged.report (.depthLowered maxDepth stack.readingLimit)
  settle text maxDepth stack (← descendReporting text maxDepth stack)

variable {text : τ} {maxDepth : Int} {stack : Stack}

/-- A stack that does not bear a reading bears none that goes deep. -/
theorem refuse_silent (h : ¬ stack.bears 0 = true) (ahead : List Char) :
    (refuse text maxDepth stack ahead).events = [] := by
  have hdeep : ¬ stack.bears (min maxDepth stack.readingLimit).toNat = true :=
    fun hdeep => h (Stack.bears_zero_of_bears hdeep)
  unfold refuse
  rw [if_neg hdeep]
  rfl

/-- The descent comes to what is made of the text, and reports what that
tells. -/
theorem descendReporting_eq :
    descendReporting text maxDepth stack
      = ⟨(outcome text maxDepth stack).told (refuse text maxDepth stack),
          outcome text maxDepth stack⟩ := by
  unfold descendReporting
  by_cases hbears : stack.bears 0 = true
  · rw [outcome_of_bears hbears]
    simp only [if_pos hbears, (Phrase.reportingRule_follows _ _ _).eq,
      Logged.bind_mk]
    exact congrArg (Logged.mk · _) (List.append_nil _)
  · have hout : outcome text maxDepth stack
        = .tooDeep (skipBlanks (Script.chars text)) := if_neg hbears
    rw [hout, Outcome.told, refuse_silent hbears]
    exact if_neg hbears

/-- What the descent reported and what is left to report are the one event
that a reading ends in. -/
theorem told_settle (text : τ) (maxDepth : Int) (stack : Stack)
    (o : Outcome) :
    o.told (refuse text maxDepth stack)
        ++ (settle text maxDepth stack o).events
      = [(ending text maxDepth stack o).1]
    ∧ (settle text maxDepth stack o).value
      = (ending text maxDepth stack o).2 := by
  cases o with
  | found expr rest =>
      dsimp only [settle, ending]
      generalize skipBlanks rest = ahead
      cases ahead <;> exact ⟨rfl, rfl⟩
  | absent => exact ⟨rfl, rfl⟩
  | tooDeep ahead =>
      dsimp only [settle, ending, Outcome.told, refuse]
      by_cases hbears :
          stack.bears (min maxDepth stack.readingLimit).toNat = true
      · rw [if_pos hbears, if_pos hbears, if_pos hbears]
        exact ⟨rfl, rfl⟩
      · rw [if_neg hbears, if_neg hbears, if_neg hbears]
        exact ⟨rfl, rfl⟩

/-- It makes no difference where the parenthesis is reported. -/
theorem parse_eq_parseReporting (text : τ) (maxDepth : Int)
    (stack : Stack) :
    parse text maxDepth stack = parseReporting text maxDepth stack := by
  obtain ⟨hevents, hvalue⟩ := told_settle text maxDepth stack
    (outcome text maxDepth stack)
  rw [parse_eq]
  unfold parseReporting
  simp only [descendReporting_eq, Logged.bind_mk, hevents, hvalue]
  split <;> rfl

/-- The event that a reading of a text ends in, and its result, where
parentheses may be `depth` deep on a stack. -/
inductive Ends (text : τ) (depth : Int) (stack : Stack) :
    Event τ → Except (ParseError τ) Expr → Prop where
  | parsed (t : Expr) : Ends text depth stack (.parsed text) (.ok t)
  | parseFailed (position : Nat) :
      Ends text depth stack (.parseFailed text position)
        (.error ⟨text, position⟩)
  | depthExceeded (position : Nat) :
      stack.bears depth.toNat = true →
      Ends text depth stack (.depthExceeded text position depth)
        (.error ⟨text, position⟩)
  | stackExhausted (position : Nat) :
      stack.bears depth.toNat = false →
      Ends text depth stack (.stackExhausted text depth)
        (.error ⟨text, position⟩)

/-- A reading ends in one of these ways. -/
theorem ends_ending (text : τ) (maxDepth : Int) (stack : Stack)
    (o : Outcome) :
    Ends text (min maxDepth stack.readingLimit) stack
      (ending text maxDepth stack o).1 (ending text maxDepth stack o).2 := by
  cases o with
  | found expr rest =>
      dsimp only [ending]
      generalize skipBlanks rest = ahead
      cases ahead with
      | nil => exact .parsed expr
      | cons c ahead => exact .parseFailed _
  | absent => exact .parseFailed _
  | tooDeep ahead =>
      dsimp only [ending]
      split
      case isTrue hbears => exact .depthExceeded _ hbears
      case isFalse hbears =>
        exact .stackExhausted _ (Bool.eq_false_iff.2 hbears)

omit [Script τ] in
/-- The event that tells of an expression is reported with a tree and with
nothing else. -/
theorem Ends.name_eq_iff {depth : Int} {event : Event τ}
    {result : Except (ParseError τ) Expr}
    (h : Ends text depth stack event result) :
    event.name = "spdx_parsed" ↔ ∃ t, result = .ok t := by
  cases h with
  | parsed t => exact iff_of_true rfl ⟨t, rfl⟩
  | parseFailed position => exact iff_of_false (by simp [Event.name]) nofun
  | depthExceeded position => exact iff_of_false (by simp [Event.name]) nofun
  | stackExhausted position => exact iff_of_false (by simp [Event.name]) nofun

-- =================================================== within the limit

section Within

variable {frames more maxDepth : Int} {text : τ}

/-- Within the limit, the depth that is asked for is the one that is given. -/
theorem min_readingLimit (h : maxDepth ≤ Stack.depthLimit { frames }) :
    min maxDepth (Stack.readingLimit { frames }) = maxDepth :=
  Int.min_eq_left h

/-- Within the limit a reading ends in the same way on every stack. -/
theorem ending_of_le (h : maxDepth ≤ Stack.depthLimit { frames })
    (h' : maxDepth ≤ Stack.depthLimit { frames := more }) (o : Outcome) :
    ending text maxDepth { frames := more } o
      = ending text maxDepth { frames } o := by
  cases o with
  | found expr rest => rfl
  | absent => rfl
  | tooDeep ahead =>
      dsimp only [ending]
      rw [min_readingLimit h, min_readingLimit h']
      rfl

/-- Within the limit a reading opens as many levels on every stack. -/
theorem levels_of_le (h : maxDepth ≤ Stack.depthLimit { frames }) :
    Stack.levels { frames } maxDepth = maxDepth.toNat := by
  have hlevels := Stack.levels_eq frames maxDepth
  omega

/-- More stack does not lower the limit. -/
theorem depthLimit_mono (hmore : frames ≤ more) :
    Stack.depthLimit { frames } ≤ Stack.depthLimit { frames := more } := by
  simp only [Stack.depthLimit]
  omega

/-- Within the limit a reading reports its ending and nothing else. -/
theorem parse_within (h : maxDepth ≤ Stack.depthLimit { frames }) :
    parse text maxDepth { frames } =
      let e := ending text maxDepth { frames } (Grammar.expression
        maxDepth.toNat (skipBlanks (Script.chars text))).val
      ⟨[e.1], e.2⟩ := by
  have hlimit : ¬ Stack.readingLimit { frames } < maxDepth := Int.not_lt.2 h
  rw [parse_eq, outcome_of_bears rfl, levels_of_le h, if_neg hlimit]
  rfl

/-- A depth within the limit makes a reading that more stack does not
change. -/
theorem parse_of_le_depthLimit (h : maxDepth ≤ Stack.depthLimit { frames })
    (hmore : frames ≤ more) :
    parse text maxDepth { frames := more }
      = parse text maxDepth { frames } := by
  have h' : maxDepth ≤ Stack.depthLimit { frames := more } :=
    Int.le_trans h (depthLimit_mono hmore)
  rw [parse_within h, parse_within h', ending_of_le h h']

/-- A depth within the limit is not lowered. -/
theorem not_lowered_of_le (h : maxDepth ≤ Stack.depthLimit { frames })
    (requested limit : Int) :
    .depthLowered requested limit
      ∉ (parse text maxDepth { frames }).events := by
  intro hmem
  rw [parse_within h] at hmem
  have hends := ends_ending text maxDepth { frames } (Grammar.expression
    maxDepth.toNat (skipBlanks (Script.chars text))).val
  rw [← List.mem_singleton.1 hmem] at hends
  cases hends

end Within

end Expr

/-- A reading reports that it was held to a lower depth, if it was, and then
how it ended, once and with the data of its result. That is so wherever a
parenthesis that is too deep is reported; for a rule on the way reports
nothing at all unless it comes to such a parenthesis, and then the whole
reading ends. -/
theorem parse_events {τ : Type} [Script τ] (text : τ) (maxDepth : Int)
    (stack : Stack) :
    (∃ terminal,
      (Expr.parse text maxDepth stack).events
        = (if stack.readingLimit < maxDepth then
            [.depthLowered maxDepth stack.readingLimit] else [])
          ++ [terminal]
      ∧ Expr.Ends text (min maxDepth stack.readingLimit) stack
        terminal (Expr.parse text maxDepth stack).value
      ∧ (terminal.name = "spdx_parsed" ↔
        ∃ t, (Expr.parse text maxDepth stack).value = .ok t))
    ∧ Expr.parse text maxDepth stack
      = Expr.parseReporting text maxDepth stack
    ∧ ∀ (report : List Char → Logged τ Unit) (levels : Nat) (p : Phrase)
      (cs : List Char),
      (∀ ahead, (p.reportingRule report levels cs).value.val
        ≠ .tooDeep ahead) →
      (p.reportingRule report levels cs).events = [] := by
  have hends := Expr.ends_ending text maxDepth stack
    (Expr.outcome text maxDepth stack)
  rw [← Expr.parse_value] at hends
  refine ⟨⟨_, by rw [Expr.parse_eq], hends, hends.name_eq_iff⟩,
    Expr.parse_eq_parseReporting text maxDepth stack, ?_⟩
  intro report levels p cs hdeep
  obtain ⟨hevents, hvalue⟩ := p.reportingRule_follows report levels cs
  rw [hvalue] at hdeep
  rw [hevents]
  generalize (p.rule levels cs).val = o at hdeep ⊢
  cases o with
  | found expr rest => rfl
  | absent => rfl
  | tooDeep ahead => exact absurd rfl (hdeep ahead)

end LicenseExpr
