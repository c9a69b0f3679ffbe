/-
Which tables give settings, and what is left of the settings when entries
are taken out of a table.

A table is looked at key by key, and each check sees only the value under
its own key. So a part of a table passes the checks of the keys that it
still has, with the same results. A key that is taken out is checked as if
its default were written there. The default flags always pass. The default
depth does not: it can be above the limit of the stack, and then a table is
refused for a depth that it does not hold.
-/
import LicenseExpr.Fault
import LicenseExpr.Proofs.Entries

namespace LicenseExpr

/-- Two steps in a row succeed if the one does and then the other. -/
theorem Except.bind_eq_ok_iff {ε α β : Type} {x : Except ε α}
    {f : α → Except ε β} {b : β} :
    (x >>= f) = .ok b ↔ ∃ a, x = .ok a ∧ f a = .ok b := by
  cases x with
  | error e => exact ⟨nofun, nofun⟩
  | ok a => exact ⟨fun h => ⟨a, rfl, h⟩, fun ⟨_, rfl, h⟩ => h⟩

/-- Two steps in a row fail if the first one does, or the second one after
it. -/
theorem Except.bind_eq_error_iff {ε α β : Type} {x : Except ε α}
    {f : α → Except ε β} {fault : ε} :
    (x >>= f) = .error fault
      ↔ x = .error fault ∨ ∃ a, x = .ok a ∧ f a = .error fault := by
  cases x with
  | error e =>
      constructor
      · intro h
        cases h
        exact .inl rfl
      · rintro (h | ⟨a, h, -⟩)
        · cases h
          rfl
        · cases h
  | ok a =>
      constructor
      · intro h
        exact .inr ⟨a, rfl, h⟩
      · rintro (h | ⟨a', h, hf⟩)
        · cases h
        · cases h
          exact hf

namespace Settings

-- =========================================================== the checks

section Checks

variable {table : Table} {stack : Stack} {key : String}

/-- A flag passes if a truth value stands under its key, or none and the flag
is not set. -/
theorem checkFlag_eq_ok_iff {flag : Bool} :
    checkFlag table key = .ok flag
      ↔ (table.lookup key).getD (.bool false) = .bool flag := by
  unfold checkFlag
  split
  case h_1 flag' hvalue => simp [hvalue]
  case h_2 hvalue =>
    constructor
    · nofun
    · intro h
      exact absurd h (hvalue flag)

/-- A depth passes if it stands under its key, or is the default, and lies
between zero and the limit of the stack. -/
theorem checkDepth_eq_ok_iff {maxDepth : Int} :
    checkDepth table stack = .ok maxDepth
      ↔ (table.lookup maxDepthKey).getD (.int defaultMaxDepth)
          = .int maxDepth
        ∧ 0 < maxDepth ∧ maxDepth ≤ stack.depthLimit := by
  unfold checkDepth
  split
  case h_1 depth hvalue =>
    rw [hvalue, Value.int.injEq]
    by_cases hpos : depth ≤ 0
    · rw [if_pos hpos]
      constructor
      · nofun
      · rintro ⟨rfl, h, -⟩
        omega
    · rw [if_neg hpos]
      by_cases hlimit : stack.depthLimit < depth
      · rw [if_pos hlimit]
        constructor
        · nofun
        · rintro ⟨rfl, -, h⟩
          omega
      · rw [if_neg hlimit, Except.ok.injEq]
        constructor
        · rintro rfl
          omega
        · rintro ⟨h, -, -⟩
          exact h
  case h_2 hvalue =>
    constructor
    · nofun
    · rintro ⟨h, -⟩
      exact absurd h (hvalue maxDepth)

/-- The keys of a table are all known. -/
def KnownKeys (table : Table) : Prop :=
  ∀ key ∈ table.map Prod.fst, key ∈ keys

theorem unknown_eq_nil_iff :
    ((table.map Prod.fst).filter fun key => !keys.contains key) = []
      ↔ KnownKeys table := by
  unfold KnownKeys
  rw [List.filter_eq_nil_iff]
  simp

/-- A table gives settings if it has no other keys and passes the checks. -/
theorem ofTable_eq_ok_iff {settings : Settings} :
    ofTable table stack = .ok settings
      ↔ KnownKeys table
        ∧ checkDepth table stack = .ok settings.maxDepth
        ∧ checkFlag table verboseKey = .ok settings.verbose
        ∧ checkFlag table quietKey = .ok settings.quiet
        ∧ checkFlag table jsonLogKey = .ok settings.jsonLog := by
  unfold ofTable
  dsimp only
  by_cases hkeys : KnownKeys table
  · rw [if_pos (unknown_eq_nil_iff.2 hkeys)]
    simp only [hkeys, true_and, Except.bind_eq_ok_iff]
    constructor
    · rintro ⟨maxDepth, hdepth, verbose, hverbose, quiet, hquiet, jsonLog,
        hjsonLog, hsettings⟩
      cases hsettings
      exact ⟨hdepth, hverbose, hquiet, hjsonLog⟩
    · rintro ⟨hdepth, hverbose, hquiet, hjsonLog⟩
      exact ⟨_, hdepth, _, hverbose, _, hquiet, _, hjsonLog, rfl⟩
  · rw [if_neg fun h => hkeys (unknown_eq_nil_iff.1 h)]
    constructor
    · nofun
    · rintro ⟨h, -⟩
      exact absurd h hkeys

/-- Of a table with no other keys the depth is looked at first. -/
theorem ofTable_eq_error {fault : SettingsFault} (hkeys : KnownKeys table)
    (hdepth : checkDepth table stack = .error fault) :
    ofTable table stack = .error fault := by
  unfold ofTable
  dsimp only
  rw [if_pos (unknown_eq_nil_iff.2 hkeys), hdepth]
  rfl

/-- A table with nothing but a depth above the limit is refused for it. -/
theorem ofTable_depthAboveLimit {maxDepth : Int} (hpos : 0 < maxDepth)
    (habove : stack.depthLimit < maxDepth) :
    ofTable [(maxDepthKey, .int maxDepth)] stack
      = .error (.depthAboveLimit stack.depthLimit maxDepth) := by
  have hkeys : KnownKeys [(maxDepthKey, .int maxDepth)] := by
    intro key hkey
    rw [List.map_singleton, List.mem_singleton] at hkey
    exact hkey ▸ .head _
  refine ofTable_eq_error hkeys ?_
  show (if maxDepth ≤ 0 then _ else if stack.depthLimit < maxDepth then _
    else _) = _
  rw [if_neg (Int.not_le.2 hpos), if_pos habove]

/-- How refusals are reported makes no difference to the settings. -/
theorem checked_eq_ok_iff {literal : Value → Except Raised String}
    {settings : Settings} :
    checked literal table stack = .ok settings
      ↔ ofTable table stack = .ok settings := by
  unfold checked
  cases ofTable table stack with
  | ok settings' =>
      show Except.ok settings' = _ ↔ _
      rw [Except.ok.injEq, Except.ok.injEq]
  | error fault => exact ⟨nofun, nofun⟩

end Checks

-- ====================================================== parts of a table

/-- The settings under some keys. Those under the other keys are the
defaults. -/
def keep (settings : Settings) (kept : String → Bool) : Settings :=
  let defaults : Settings := {}
  { maxDepth :=
      if kept maxDepthKey then settings.maxDepth else defaults.maxDepth
    verbose := if kept verboseKey then settings.verbose else defaults.verbose
    quiet := if kept quietKey then settings.quiet else defaults.quiet
    jsonLog :=
      if kept jsonLogKey then settings.jsonLog else defaults.jsonLog }

section Parts

variable {table part : Table} {stack : Stack}

/-- A flag that a part still has is the same, and one that it has not is
not set. -/
theorem checkFlag_part (h : (table.map Prod.fst).Nodup)
    (hpart : part.Sublist table) {key : String} {flag : Bool}
    (hflag : checkFlag table key = .ok flag) :
    checkFlag part key
      = .ok (if (part.lookup key).isSome then flag else false) := by
  rw [checkFlag_eq_ok_iff] at hflag ⊢
  cases hlookup : part.lookup key with
  | none => rfl
  | some value =>
      rw [lookup_of_sublist h hpart hlookup] at hflag
      exact hflag

/-- A depth that a part still has is the same. -/
theorem checkDepth_part (h : (table.map Prod.fst).Nodup)
    (hpart : part.Sublist table) {maxDepth : Int}
    (hdepth : checkDepth table stack = .ok maxDepth)
    (hkept : (part.lookup maxDepthKey).isSome) :
    checkDepth part stack = .ok maxDepth := by
  obtain ⟨value, hlookup⟩ := Option.isSome_iff_exists.1 hkept
  rw [checkDepth_eq_ok_iff, lookup_of_sublist h hpart hlookup] at hdepth
  rw [checkDepth_eq_ok_iff, hlookup]
  exact hdepth

/-- Where there is no depth, the default must be within the limit. -/
theorem checkDepth_of_none (h : part.lookup maxDepthKey = none)
    (stack : Stack) :
    checkDepth part stack
      = if stack.depthLimit < defaultMaxDepth then
          .error (.depthAboveLimit stack.depthLimit defaultMaxDepth)
        else .ok defaultMaxDepth := by
  unfold checkDepth
  rw [h]
  rfl

/-- A part of a table has no key that the table does not have. -/
theorem KnownKeys.sublist (h : KnownKeys table) (hpart : part.Sublist table) :
    KnownKeys part := by
  intro key hkey
  exact h key ((hpart.map Prod.fst).subset hkey)

/-- A part of a table that gives settings gives the same ones under the keys
that it still has and the defaults elsewhere; but it is refused if it has no
depth and the default depth is above the limit. -/
theorem ofTable_part {settings : Settings}
    (h : (table.map Prod.fst).Nodup) (hpart : part.Sublist table)
    (hok : ofTable table stack = .ok settings) :
    ofTable part stack
      = if part.lookup maxDepthKey = none
            ∧ stack.depthLimit < defaultMaxDepth then
          .error (.depthAboveLimit stack.depthLimit defaultMaxDepth)
        else .ok (settings.keep fun key => (part.lookup key).isSome) := by
  obtain ⟨hkeys, hdepth, hverbose, hquiet, hjsonLog⟩ :=
    ofTable_eq_ok_iff.1 hok
  split
  case isTrue habove =>
    refine ofTable_eq_error (hkeys.sublist hpart) ?_
    rw [checkDepth_of_none habove.1 stack, if_pos habove.2]
  case isFalse hwithin =>
    refine ofTable_eq_ok_iff.2 ⟨hkeys.sublist hpart, ?_,
      checkFlag_part h hpart hverbose, checkFlag_part h hpart hquiet,
      checkFlag_part h hpart hjsonLog⟩
    dsimp only [keep]
    by_cases hkept : (part.lookup maxDepthKey).isSome
    · rw [if_pos hkept]
      exact checkDepth_part h hpart hdepth hkept
    · have hnone : part.lookup maxDepthKey = none :=
        Option.not_isSome_iff_eq_none.1 hkept
      rw [if_neg hkept, checkDepth_of_none hnone stack,
        if_neg fun habove => hwithin ⟨hnone, habove⟩]

end Parts

end Settings

end LicenseExpr
