/-
What can be said against a table of settings, and what is said first.

# Complaints

A complaint is a fault that a table has, told by its entries and without
regard to how tables are checked (`Complaint`). A table can have many at
once. They have an order (`rank`), in which no two complaints about a table
stand in the same place, so one of them is the first.

# The checks

The checks go through the complaints in this order. What is carried from one
check to the next is that all complaints stand behind it (`Behind`): a check
that passes moves this on, and one that fails reports the complaint in whose
place it stands. A table is valid if it has no complaint, and is refused for
its first complaint otherwise.

This is so for every table that has a depth. Without one the default depth
is checked, about which a table cannot complain, so there the default must
be within the limit.

# What is said

A complaint is an error of the settings with a message that shows the value
that is wrong. There is a message unless there is no text for that value, and
then what comes up when it is shown is reported in place of the complaint
(`checked_of_first`).

# Order and depth

What is found under a key does not depend on the order of the entries, and
the keys that are not known are named in ascending order. A depth that is
accepted is within the limit that readings are held to, so none is lowered
for it.
-/
import LicenseExpr.Proofs.Reporting
import LicenseExpr.Proofs.Tables
import Mathlib.Data.List.Sort
import Mathlib.Data.String.Basic

namespace LicenseExpr

namespace Settings

-- ========================================================== valid tables

/-- The keys of the flags, in the order in which they are checked. -/
def flagKeys : List String := [verboseKey, quietKey, jsonLogKey]

/-- A table with known keys only, under which stand a depth within the limit
and flags, as far as they are there. -/
structure Valid (table : Table) (stack : Stack) : Prop where
  known : KnownKeys table
  depth : ∀ value, (maxDepthKey, value) ∈ table →
    ∃ maxDepth, value = .int maxDepth ∧ 1 ≤ maxDepth
      ∧ maxDepth ≤ stack.depthLimit
  flags : ∀ key ∈ flagKeys, ∀ value, (key, value) ∈ table →
    ∃ flag, value = .bool flag

/-- Each of the settings is what the table has for it, or the default. -/
structure GivenBy (settings : Settings) (table : Table) : Prop where
  maxDepth : (table.lookup maxDepthKey).getD (.int ({} : Settings).maxDepth)
    = .int settings.maxDepth
  verbose : (table.lookup verboseKey).getD (.bool ({} : Settings).verbose)
    = .bool settings.verbose
  quiet : (table.lookup quietKey).getD (.bool ({} : Settings).quiet)
    = .bool settings.quiet
  jsonLog : (table.lookup jsonLogKey).getD (.bool ({} : Settings).jsonLog)
    = .bool settings.jsonLog

/-- The table has a depth, or the default depth is within the limit. -/
def HasDepth (table : Table) (stack : Stack) : Prop :=
  maxDepthKey ∈ table.map Prod.fst ∨ defaultMaxDepth ≤ stack.depthLimit

-- ============================================================ complaints

/-- The faults that a table has. -/
inductive Complaint (table : Table) (stack : Stack) :
    SettingsFault → Prop where
  /-- All the keys that are not known, in ascending order. -/
  | unknownKeys {unknown : List String} (hne : unknown ≠ [])
      (hascending : unknown.Pairwise (· < ·))
      (hmem : ∀ key, key ∈ unknown
        ↔ key ∈ table.map Prod.fst ∧ key ∉ keys) :
      Complaint table stack (.unknownKeys unknown)
  | depthNotPositive {value : Value} (hmem : (maxDepthKey, value) ∈ table)
      (hvalue : ∀ maxDepth, value = .int maxDepth → maxDepth ≤ 0) :
      Complaint table stack (.depthNotPositive value)
  | depthAboveLimit {maxDepth : Int}
      (hmem : (maxDepthKey, .int maxDepth) ∈ table)
      (habove : stack.depthLimit < maxDepth) :
      Complaint table stack (.depthAboveLimit stack.depthLimit maxDepth)
  | flagNotTruthValue {key : String} {value : Value} (hkey : key ∈ flagKeys)
      (hmem : (key, value) ∈ table) (hvalue : ∀ flag, value ≠ .bool flag) :
      Complaint table stack (.flagNotTruthValue key value)

/-- The place of a fault in the order of the checks. -/
def rank : SettingsFault → Nat
  | .unknownKeys _ => 0
  | .depthNotPositive _ => 1
  | .depthAboveLimit _ _ => 2
  | .flagNotTruthValue key _ => 3 + flagKeys.idxOf key
  | .notATable => 3 + flagKeys.length

/-- A complaint about the table that comes before all others. -/
def FirstComplaint (table : Table) (stack : Stack)
    (fault : SettingsFault) : Prop :=
  Complaint table stack fault
    ∧ ∀ other, Complaint table stack other → rank fault ≤ rank other

/-- All complaints about the table stand in the place `n` or behind it. -/
def Behind (table : Table) (stack : Stack) (n : Nat) : Prop :=
  ∀ fault, Complaint table stack fault → n ≤ rank fault

section Complaints

variable {table : Table} {stack : Stack} {fault fault' : SettingsFault}
  {n : Nat} {key : String}

-- ===================================================== one in each place

/-- In the first place stands a complaint about keys. -/
theorem Complaint.of_rank_zero (h : Complaint table stack fault)
    (hrank : rank fault = 0) :
    ∃ unknown, fault = .unknownKeys unknown ∧ unknown ≠ []
      ∧ unknown.Pairwise (· < ·)
      ∧ ∀ key, key ∈ unknown ↔ key ∈ table.map Prod.fst ∧ key ∉ keys := by
  cases h with
  | unknownKeys hne hascending hmem => exact ⟨_, rfl, hne, hascending, hmem⟩
  | depthNotPositive => cases hrank
  | depthAboveLimit => cases hrank
  | flagNotTruthValue => simp only [rank] at hrank; omega

/-- In the second place stands a complaint about what is no depth at all. -/
theorem Complaint.of_rank_one (h : Complaint table stack fault)
    (hrank : rank fault = 1) :
    ∃ value, fault = .depthNotPositive value ∧ (maxDepthKey, value) ∈ table
      ∧ ∀ maxDepth, value = .int maxDepth → maxDepth ≤ 0 := by
  cases h with
  | unknownKeys => cases hrank
  | depthNotPositive hmem hvalue => exact ⟨_, rfl, hmem, hvalue⟩
  | depthAboveLimit => cases hrank
  | flagNotTruthValue => simp only [rank] at hrank; omega

/-- In the third place stands a complaint about a depth above the limit. -/
theorem Complaint.of_rank_two (h : Complaint table stack fault)
    (hrank : rank fault = 2) :
    ∃ maxDepth, fault = .depthAboveLimit stack.depthLimit maxDepth
      ∧ (maxDepthKey, .int maxDepth) ∈ table
      ∧ stack.depthLimit < maxDepth := by
  cases h with
  | unknownKeys => cases hrank
  | depthNotPositive => cases hrank
  | depthAboveLimit hmem habove => exact ⟨_, rfl, hmem, habove⟩
  | flagNotTruthValue => simp only [rank] at hrank; omega

/-- Behind these the flags have a place each. -/
theorem Complaint.of_rank_flag (h : Complaint table stack fault)
    (hrank : rank fault = 3 + flagKeys.idxOf key) :
    ∃ value, fault = .flagNotTruthValue key value ∧ (key, value) ∈ table
      ∧ ∀ flag, value ≠ .bool flag := by
  cases h with
  | unknownKeys => simp only [rank] at hrank; omega
  | depthNotPositive => simp only [rank] at hrank; omega
  | depthAboveLimit => simp only [rank] at hrank; omega
  | flagNotTruthValue hkey hmem hvalue =>
      -- no two flags have the same place
      obtain rfl := (List.idxOf_inj hkey).1 (Nat.add_left_cancel hrank)
      exact ⟨_, rfl, hmem, hvalue⟩

/-- No two complaints about a table stand in the same place. -/
theorem Complaint.eq_of_rank_eq (hkeys : (table.map Prod.fst).Nodup)
    (h : Complaint table stack fault) (h' : Complaint table stack fault')
    (hrank : rank fault' = rank fault) : fault = fault' := by
  have hvalue {key : String} {value value' : Value}
      (hmem : (key, value) ∈ table) (hmem' : (key, value') ∈ table) :
      value = value' := by
    rw [← lookup_eq_some_iff_mem hkeys] at hmem hmem'
    exact Option.some.inj (hmem.symm.trans hmem')
  cases h with
  | @unknownKeys unknown _ hascending hmem =>
      obtain ⟨unknown', rfl, -, hascending', hmem'⟩ := h'.of_rank_zero hrank
      have hsame : ∀ key, key ∈ unknown ↔ key ∈ unknown' := fun key =>
        (hmem key).trans (hmem' key).symm
      rw [hascending.eq_of_mem_iff hascending' hsame]
  | depthNotPositive hmem =>
      obtain ⟨value', rfl, hmem', -⟩ := h'.of_rank_one hrank
      rw [hvalue hmem hmem']
  | depthAboveLimit hmem =>
      obtain ⟨maxDepth', rfl, hmem', -⟩ := h'.of_rank_two hrank
      rw [Value.int.inj (hvalue hmem hmem')]
  | flagNotTruthValue _ hmem =>
      obtain ⟨value', rfl, hmem', -⟩ := h'.of_rank_flag hrank
      rw [hvalue hmem hmem']

-- ====================================================== going through them

theorem behind_zero : Behind table stack 0 := fun _ _ => Nat.zero_le _

/-- What is known to stand behind moves on where no complaint stands. -/
theorem Behind.succ (h : Behind table stack n)
    (hnone : ∀ fault, Complaint table stack fault → rank fault ≠ n) :
    Behind table stack (n + 1) := by
  intro fault hfault
  have hle := h fault hfault
  have hne := hnone fault hfault
  omega

/-- Where all keys are known none is complained about. -/
theorem behind_one (hknown : KnownKeys table) : Behind table stack 1 := by
  refine behind_zero.succ fun fault hfault hrank => ?_
  obtain ⟨unknown, -, hne, -, hmem⟩ := hfault.of_rank_zero hrank
  obtain ⟨key, hkey⟩ := List.exists_mem_of_ne_nil _ hne
  obtain ⟨hin, hout⟩ := (hmem key).1 hkey
  exact hout (hknown key hin)

/-- Keys that are not known are complained about first, and all at once. -/
theorem firstComplaint_of_unknown (hknown : ¬ KnownKeys table)
    (h : ofTable table stack = .error fault) :
    FirstComplaint table stack fault := by
  have hne := fun hnil => hknown (unknown_eq_nil_iff.1 hnil)
  unfold ofTable at h
  dsimp only at h
  rw [if_neg hne] at h
  cases h
  refine ⟨.unknownKeys ?_ (Text.pairwise_ascending _) fun key => ?_,
    behind_zero⟩
  · obtain ⟨key, hkey⟩ := List.exists_mem_of_ne_nil _ hne
    exact List.ne_nil_of_mem (Text.mem_ascending.2 hkey)
  · rw [Text.mem_ascending, List.mem_filter]
    simp

/-- Why a depth fails its check. -/
theorem checkDepth_eq_error (h : checkDepth table stack = .error fault) :
    ∃ value,
      (table.lookup maxDepthKey).getD (.int defaultMaxDepth) = value
      ∧ (fault = .depthNotPositive value
          ∧ (∀ maxDepth, value = .int maxDepth → maxDepth ≤ 0)
        ∨ ∃ maxDepth, fault = .depthAboveLimit stack.depthLimit maxDepth
          ∧ value = .int maxDepth ∧ 0 < maxDepth
          ∧ stack.depthLimit < maxDepth) := by
  refine ⟨_, rfl, ?_⟩
  unfold checkDepth at h
  split at h
  case h_1 maxDepth hvalue =>
    rw [hvalue]
    split at h
    case isTrue hle =>
      cases h
      refine .inl ⟨rfl, fun depth hint => ?_⟩
      cases hint
      exact hle
    case isFalse hpos =>
      split at h
      case isTrue habove =>
        cases h
        exact .inr ⟨maxDepth, rfl, rfl, Int.not_le.1 hpos, habove⟩
      case isFalse => cases h
  case h_2 hvalue =>
    cases h
    exact .inl ⟨rfl, fun depth hint => (hvalue depth hint).elim⟩

/-- A depth that fails its check stands in the table. -/
theorem mem_of_checkDepth (hkeys : (table.map Prod.fst).Nodup)
    (hdepth : HasDepth table stack)
    (h : checkDepth table stack = .error fault) :
    (maxDepthKey, (table.lookup maxDepthKey).getD (.int defaultMaxDepth))
      ∈ table := by
  cases hlookup : table.lookup maxDepthKey with
  | some value => exact (lookup_eq_some_iff_mem hkeys).1 hlookup
  | none =>
      rw [checkDepth_of_none hlookup] at h
      rcases hdepth with hmem | hle
      · obtain ⟨⟨_, value⟩, hentry, rfl⟩ := List.mem_map.1 hmem
        rw [(lookup_eq_some_iff_mem hkeys).2 hentry] at hlookup
        cases hlookup
      · rw [if_neg (Int.not_lt.2 hle)] at h
        cases h

/-- A depth that fails its check is complained about first. -/
theorem Behind.firstComplaint_of_depth (h : Behind table stack 1)
    (hkeys : (table.map Prod.fst).Nodup) (hdepth : HasDepth table stack)
    (hfails : checkDepth table stack = .error fault) :
    FirstComplaint table stack fault := by
  have hmem := mem_of_checkDepth hkeys hdepth hfails
  obtain ⟨value, hvalue, ⟨rfl, hle⟩ | ⟨maxDepth, rfl, rfl, hpos, habove⟩⟩ :=
    checkDepth_eq_error hfails
  · rw [hvalue] at hmem
    exact ⟨.depthNotPositive hmem hle, h⟩
  · rw [hvalue] at hmem
    -- A depth above the limit is positive, so it is not complained of twice.
    refine ⟨.depthAboveLimit hmem habove,
      h.succ fun other hother hrank => ?_⟩
    obtain ⟨value, rfl, hmem', hle⟩ := hother.of_rank_one hrank
    rw [← lookup_eq_some_iff_mem hkeys] at hmem hmem'
    have hint := Option.some.inj (hmem'.symm.trans hmem)
    have hle := hle maxDepth hint
    omega

/-- A depth that passes its check is an integer within the limit, if it is
there. -/
theorem int_of_checkDepth (hkeys : (table.map Prod.fst).Nodup)
    {maxDepth : Int} (h : checkDepth table stack = .ok maxDepth)
    {value : Value} (hmem : (maxDepthKey, value) ∈ table) :
    value = .int maxDepth ∧ 1 ≤ maxDepth ∧ maxDepth ≤ stack.depthLimit := by
  rw [checkDepth_eq_ok_iff, (lookup_eq_some_iff_mem hkeys).2 hmem] at h
  exact h

/-- A depth that passes its check is not complained about. -/
theorem Behind.depth (h : Behind table stack 1)
    (hkeys : (table.map Prod.fst).Nodup) {maxDepth : Int}
    (hpasses : checkDepth table stack = .ok maxDepth) :
    Behind table stack 3 := by
  refine (h.succ fun fault hfault hrank => ?_).succ
    fun fault hfault hrank => ?_
  · obtain ⟨value, -, hmem, hnot⟩ := hfault.of_rank_one hrank
    obtain ⟨hint, hpos, -⟩ := int_of_checkDepth hkeys hpasses hmem
    have hle := hnot maxDepth hint
    omega
  · obtain ⟨depth, -, hmem, habove⟩ := hfault.of_rank_two hrank
    obtain ⟨hint, -, hle⟩ := int_of_checkDepth hkeys hpasses hmem
    obtain rfl := Value.int.inj hint
    omega

/-- A flag that fails its check stands in the table and is no truth
value. -/
theorem checkFlag_eq_error (hkeys : (table.map Prod.fst).Nodup)
    (h : checkFlag table key = .error fault) :
    ∃ value, fault = .flagNotTruthValue key value ∧ (key, value) ∈ table
      ∧ ∀ flag, value ≠ .bool flag := by
  unfold checkFlag at h
  split at h
  case h_1 => cases h
  case h_2 hvalue =>
    cases h
    cases hlookup : table.lookup key with
    | none => exact absurd (by rw [hlookup]; rfl) (hvalue false)
    | some value =>
        rw [hlookup] at hvalue
        exact ⟨value, rfl, (lookup_eq_some_iff_mem hkeys).1 hlookup, hvalue⟩

/-- A flag that passes its check is a truth value, if it is there. -/
theorem bool_of_checkFlag (hkeys : (table.map Prod.fst).Nodup) {flag : Bool}
    (h : checkFlag table key = .ok flag) {value : Value}
    (hmem : (key, value) ∈ table) : ∃ flag, value = .bool flag := by
  rw [checkFlag_eq_ok_iff, (lookup_eq_some_iff_mem hkeys).2 hmem] at h
  exact ⟨flag, h⟩

/-- A flag that fails its check is complained about first. -/
theorem Behind.firstComplaint_of_flag
    (h : Behind table stack (3 + flagKeys.idxOf key)) (hkey : key ∈ flagKeys)
    (hkeys : (table.map Prod.fst).Nodup)
    (hfails : checkFlag table key = .error fault) :
    FirstComplaint table stack fault := by
  obtain ⟨value, rfl, hmem, hvalue⟩ := checkFlag_eq_error hkeys hfails
  exact ⟨.flagNotTruthValue hkey hmem hvalue, h⟩

/-- A flag that passes its check is not complained about. -/
theorem Behind.flag (h : Behind table stack (3 + flagKeys.idxOf key))
    (hkeys : (table.map Prod.fst).Nodup) {flag : Bool}
    (hpasses : checkFlag table key = .ok flag) :
    Behind table stack (3 + flagKeys.idxOf key + 1) := by
  refine h.succ fun fault hfault hrank => ?_
  obtain ⟨value, -, hmem, hvalue⟩ := hfault.of_rank_flag hrank
  obtain ⟨flag, hbool⟩ := bool_of_checkFlag hkeys hpasses hmem
  exact hvalue flag hbool

/-- A table is refused for its first complaint. -/
theorem firstComplaint_of_error (hkeys : (table.map Prod.fst).Nodup)
    (hdepth : HasDepth table stack)
    (h : ofTable table stack = .error fault) :
    FirstComplaint table stack fault := by
  by_cases hknown : KnownKeys table
  case neg => exact firstComplaint_of_unknown hknown h
  case pos =>
    unfold ofTable at h
    dsimp only at h
    rw [if_pos (unknown_eq_nil_iff.2 hknown)] at h
    have hbehind : Behind table stack 1 := behind_one hknown
    -- one check after the other: it fails, or all complaints stand behind it
    rcases Except.bind_eq_error_iff.1 h with hfails | ⟨_, hpasses, h⟩
    · exact hbehind.firstComplaint_of_depth hkeys hdepth hfails
    have hverbose : Behind table stack (3 + flagKeys.idxOf verboseKey) :=
      hbehind.depth hkeys hpasses
    rcases Except.bind_eq_error_iff.1 h with hfails | ⟨_, hpasses, h⟩
    · exact hverbose.firstComplaint_of_flag (by decide) hkeys hfails
    have hquiet : Behind table stack (3 + flagKeys.idxOf quietKey) :=
      hverbose.flag hkeys hpasses
    rcases Except.bind_eq_error_iff.1 h with hfails | ⟨_, hpasses, h⟩
    · exact hquiet.firstComplaint_of_flag (by decide) hkeys hfails
    have hjsonLog : Behind table stack (3 + flagKeys.idxOf jsonLogKey) :=
      hquiet.flag hkeys hpasses
    rcases Except.bind_eq_error_iff.1 h with hfails | ⟨_, _, h⟩
    · exact hjsonLog.firstComplaint_of_flag (by decide) hkeys hfails
    · cases h

/-- A table that is refused is refused for its first complaint, and no other
one is that. -/
theorem ofTable_eq_error_iff (hkeys : (table.map Prod.fst).Nodup)
    (hdepth : HasDepth table stack)
    (hrefused : ¬ ∃ settings, ofTable table stack = .ok settings) :
    ofTable table stack = .error fault
      ↔ FirstComplaint table stack fault := by
  constructor
  · exact firstComplaint_of_error hkeys hdepth
  · rintro ⟨hfault, hfirst⟩
    cases hresult : ofTable table stack with
    | ok settings => exact absurd ⟨settings, hresult⟩ hrefused
    | error fault' =>
        obtain ⟨hfault', hfirst'⟩ :=
          firstComplaint_of_error hkeys hdepth hresult
        have hrank : rank fault' = rank fault :=
          Nat.le_antisymm (hfirst' fault hfault) (hfirst fault' hfault')
        rw [hfault.eq_of_rank_eq hkeys hfault' hrank]

-- ========================================================== valid tables

/-- Nothing can be said against a valid table. -/
theorem Valid.not_complaint (h : Valid table stack) :
    ¬ Complaint table stack fault := by
  intro hfault
  cases hfault with
  | unknownKeys hne _ hmem =>
      obtain ⟨key, hkey⟩ := List.exists_mem_of_ne_nil _ hne
      obtain ⟨hin, hout⟩ := (hmem key).1 hkey
      exact hout (h.known key hin)
  | depthNotPositive hmem hvalue =>
      obtain ⟨maxDepth, rfl, hpos, -⟩ := h.depth _ hmem
      have hle := hvalue maxDepth rfl
      omega
  | depthAboveLimit hmem habove =>
      obtain ⟨maxDepth, hint, -, hle⟩ := h.depth _ hmem
      cases hint
      omega
  | flagNotTruthValue hkey hmem hvalue =>
      obtain ⟨flag, rfl⟩ := h.flags _ hkey _ hmem
      exact hvalue flag rfl

/-- A table that passes all checks is valid. -/
theorem valid_of_ok {settings : Settings}
    (hkeys : (table.map Prod.fst).Nodup)
    (h : ofTable table stack = .ok settings) : Valid table stack := by
  obtain ⟨hknown, hmaxDepth, hverbose, hquiet, hjsonLog⟩ :=
    ofTable_eq_ok_iff.1 h
  refine ⟨hknown, fun value hmem => ?_, fun key hkey value hmem => ?_⟩
  · exact ⟨settings.maxDepth, int_of_checkDepth hkeys hmaxDepth hmem⟩
  · simp only [flagKeys, List.mem_cons, List.not_mem_nil, or_false] at hkey
    rcases hkey with rfl | rfl | rfl
    · exact bool_of_checkFlag hkeys hverbose hmem
    · exact bool_of_checkFlag hkeys hquiet hmem
    · exact bool_of_checkFlag hkeys hjsonLog hmem

/-- A table that passes all checks gives the settings. -/
theorem givenBy_of_ok {settings : Settings}
    (h : ofTable table stack = .ok settings) : settings.GivenBy table := by
  obtain ⟨-, hmaxDepth, hverbose, hquiet, hjsonLog⟩ := ofTable_eq_ok_iff.1 h
  exact ⟨(checkDepth_eq_ok_iff.1 hmaxDepth).1, checkFlag_eq_ok_iff.1 hverbose,
    checkFlag_eq_ok_iff.1 hquiet, checkFlag_eq_ok_iff.1 hjsonLog⟩

/-- The tables that give settings are the valid ones. -/
theorem ofTable_ok_iff_valid (hkeys : (table.map Prod.fst).Nodup)
    (hdepth : HasDepth table stack) :
    (∃ settings, ofTable table stack = .ok settings)
      ↔ Valid table stack := by
  constructor
  · rintro ⟨settings, h⟩
    exact valid_of_ok hkeys h
  · intro hvalid
    cases hresult : ofTable table stack with
    | ok settings => exact ⟨settings, rfl⟩
    | error fault =>
        obtain ⟨hfault, -⟩ := firstComplaint_of_error hkeys hdepth hresult
        exact absurd hfault hvalid.not_complaint

end Complaints

-- ====================================================== order of entries

section Order

variable {table table' : Table} {stack : Stack}

/-- The checks find the same under each key, in whatever order the entries
stand. -/
theorem ofTable_perm (hkeys : (table.map Prod.fst).Nodup)
    (h : table'.Perm table) (stack : Stack) :
    ofTable table' stack = ofTable table stack := by
  have hlookup := lookup_perm hkeys h
  have hunknown :
      ((table'.map Prod.fst).filter fun key => !keys.contains key).Perm
        ((table.map Prod.fst).filter fun key => !keys.contains key) :=
    (h.map Prod.fst).filter _
  have hascending := (Text.pairwise_ascending _).eq_of_mem_iff
    (Text.pairwise_ascending _) fun key =>
      Text.mem_ascending.trans (hunknown.mem_iff.trans
        Text.mem_ascending.symm)
  unfold ofTable checkDepth checkFlag
  simp only [hlookup, hascending, ← List.isEmpty_iff, hunknown.isEmpty_eq]

end Order

-- ========================================================= what is said

section Said

variable {literal : Value → Except Raised String} {table : Table}
  {stack : Stack} {fault : SettingsFault}

/-- The first complaint is reported by its message. -/
theorem checked_of_first {message : String}
    (h : ofTable table stack = .error fault)
    (hmessage : fault.message literal = .ok message) :
    checked literal table stack = .error (.settings message) := by
  unfold checked
  rw [h]
  show Except.error (Fault.ofSettings literal fault) = _
  rw [Fault.ofSettings, hmessage]

/-- If its message cannot be made, what came up is reported. -/
theorem checked_of_unsaid {raised : Raised}
    (h : ofTable table stack = .error fault)
    (hraised : fault.message literal = .error raised) :
    checked literal table stack = .error (.raised raised) := by
  unfold checked
  rw [h]
  show Except.error (Fault.ofSettings literal fault) = _
  rw [Fault.ofSettings, hraised]

/-- A depth is shown with the limit that it is above. -/
theorem message_depthAboveLimit {limit maxDepth : Int}
    (hlimit : limit.natAbs < Text.digitsBound)
    (hmaxDepth : maxDepth.natAbs < Text.digitsBound) :
    (SettingsFault.depthAboveLimit limit maxDepth).message literal
      = .ok ("max-depth must be at most " ++ toString limit
        ++ " for the current recursion limit, got " ++ toString maxDepth) := by
  rw [SettingsFault.message, Text.decimal_of_lt hlimit,
    Text.decimal_of_lt hmaxDepth]
  rfl

/-- A depth with too many digits is not shown. -/
theorem message_of_huge_depth {limit maxDepth : Int}
    (hlimit : limit.natAbs < Text.digitsBound)
    (hmaxDepth : Text.digitsBound ≤ maxDepth.natAbs) :
    (SettingsFault.depthAboveLimit limit maxDepth).message literal
      = .error .tooManyDigits := by
  rw [SettingsFault.message, Text.decimal_of_lt hlimit,
    Text.decimal_of_le hmaxDepth]
  rfl

/-- What is shown of a value that is no depth is its name, if it has one. -/
theorem message_depthNotPositive (value : Value) :
    (SettingsFault.depthNotPositive value).message literal
      = (literal value).map
          ("max-depth must be a positive integer, got " ++ ·) := by
  rw [SettingsFault.message]
  cases literal value <;> rfl

/-- What is shown of a value that is no flag is its name, if it has one. -/
theorem message_flagNotTruthValue (key : String) (value : Value) :
    (SettingsFault.flagNotTruthValue key value).message literal
      = (literal value).map (key ++ " must be a boolean, got " ++ ·) := by
  rw [SettingsFault.message]
  cases literal value <;> rfl

end Said

/-- A table that has a depth, or is checked where the default depth is
within the limit, gives settings exactly if it is valid: if all its keys are
known and under them stand a depth from one up to the limit and flags, as
far as they are there. Each of the settings is then what the table has for
it, or the default. Any other table has one first complaint. It is refused
with the message about that, in which keys that are not known are named all
at once; or, where the value in question has no text to be shown by, with
what comes up instead. The order of the entries makes no difference. A
reading that is asked for a depth that was accepted is not held to a lower
one, and more stack does not change it. -/
theorem checked_outcomes (literal : Value → Except Raised String)
    (frames : Int) (table : Table) (hkeys : (table.map Prod.fst).Nodup)
    (hdepth : HasDepth table { frames }) :
    ((∃ settings, checked literal table { frames } = .ok settings)
      ↔ Valid table { frames })
    ∧ (¬ Valid table { frames } → ∃ fault,
      (∀ other, FirstComplaint table { frames } other ↔ other = fault)
      ∧ (∀ message, fault.message literal = .ok message →
        checked literal table { frames } = .error (.settings message))
      ∧ ∀ raised, fault.message literal = .error raised →
        checked literal table { frames } = .error (.raised raised))
    ∧ (∀ unknown, (SettingsFault.unknownKeys unknown).message literal
      = .ok ("Unknown key(s) in [tool.spdx-expression]: "
        ++ ", ".intercalate unknown))
    ∧ (∀ limit maxDepth : Int, limit.natAbs < Text.digitsBound →
      let message :=
        (SettingsFault.depthAboveLimit limit maxDepth).message literal
      (maxDepth.natAbs < Text.digitsBound → message
        = .ok ("max-depth must be at most " ++ toString limit
          ++ " for the current recursion limit, got " ++ toString maxDepth))
      ∧ (Text.digitsBound ≤ maxDepth.natAbs →
        message = .error .tooManyDigits))
    ∧ (∀ value,
      (SettingsFault.depthNotPositive value).message literal
        = (literal value).map
            ("max-depth must be a positive integer, got " ++ ·)
      ∧ ∀ key, (SettingsFault.flagNotTruthValue key value).message literal
        = (literal value).map (key ++ " must be a boolean, got " ++ ·))
    ∧ (∀ table' : Table, table'.Perm table →
      checked literal table' { frames } = checked literal table { frames })
    ∧ ∀ settings, checked literal table { frames } = .ok settings →
      settings.GivenBy table
      ∧ ∀ {τ : Type} [Script τ] (text : τ),
        (∀ requested limit, .depthLowered requested limit
          ∉ (Expr.parse text settings.maxDepth { frames }).events)
        ∧ ∀ more, frames ≤ more →
          Expr.parse text settings.maxDepth { frames := more }
            = Expr.parse text settings.maxDepth { frames } := by
  have hvalid := ofTable_ok_iff_valid hkeys hdepth
  refine ⟨?_, fun hnot => ?_, fun unknown => rfl,
    fun limit maxDepth hlimit =>
      ⟨message_depthAboveLimit hlimit, message_of_huge_depth hlimit⟩,
    fun value => ⟨message_depthNotPositive value,
      fun key => message_flagNotTruthValue key value⟩,
    fun table' hperm => ?_, fun settings h => ?_⟩
  · simp only [checked_eq_ok_iff]
    exact hvalid
  · have hrefused := fun hok => hnot (hvalid.1 hok)
    cases hresult : ofTable table { frames } with
    | ok settings => exact absurd ⟨settings, hresult⟩ hrefused
    | error fault =>
        refine ⟨fault, fun other => ?_,
          fun message => checked_of_first hresult,
          fun raised => checked_of_unsaid hresult⟩
        rw [← ofTable_eq_error_iff hkeys hdepth hrefused, hresult,
          Except.error.injEq, eq_comm]
  · unfold checked
    rw [ofTable_perm hkeys hperm]
  · rw [checked_eq_ok_iff] at h
    have hle := (checkDepth_eq_ok_iff.1 (ofTable_eq_ok_iff.1 h).2.1).2.2
    exact ⟨givenBy_of_ok h, fun text => ⟨Expr.not_lowered_of_le hle,
      fun more hmore => Expr.parse_of_le_depthLimit hle hmore⟩⟩

/-- Of all that can be said against the table, the keys that are not known
are named, in ascending order. Neither the depth, which is above the limit
of 75, nor the flag is spoken of. -/
theorem checked_of_many_faults :
    let table : Table :=
      [(quietKey, .int 1), ("zeal", .null), (maxDepthKey, .int 76),
        ("amble", .bool true)]
    (table.map Prod.fst).Nodup ∧ HasDepth table { frames := 500 }
      ∧ checked (Value.literal Text.isHidden) table { frames := 500 }
        = .error (.settings
          "Unknown key(s) in [tool.spdx-expression]: amble, zeal") := by
  intro table
  have hkeys : (table.map Prod.fst).Nodup := by decide
  have hdepth : HasDepth table { frames := 500 } := .inl (by decide)
  obtain ⟨-, hrefused, hunknown, -⟩ := checked_outcomes
    (Value.literal Text.isHidden) 500 table hkeys hdepth
  have hnot : ¬ Valid table { frames := 500 } := fun hvalid =>
    absurd (hvalid.known "zeal" (by decide)) (by decide)
  have hmem : ∀ key, key ∈ ["amble", "zeal"]
      ↔ key ∈ table.map Prod.fst ∧ key ∉ keys := by
    intro key
    constructor
    · simp only [List.mem_cons, List.not_mem_nil, or_false]
      rintro (rfl | rfl) <;> decide
    · simp only [table, List.map_cons, List.map_nil, List.mem_cons,
        List.not_mem_nil, or_false]
      rintro ⟨rfl | rfl | rfl | rfl, hout⟩
      · exact absurd (by decide) hout
      · exact .inr rfl
      · exact absurd (by decide) hout
      · exact .inl rfl
  have hfirst : FirstComplaint table { frames := 500 }
      (.unknownKeys ["amble", "zeal"]) :=
    ⟨.unknownKeys (List.cons_ne_nil _ _) (by decide) hmem,
      fun _ _ => Nat.zero_le _⟩
  obtain ⟨fault, hiff, hsaid, -⟩ := hrefused hnot
  obtain rfl := (hiff _).1 hfirst
  exact ⟨hkeys, hdepth, hsaid _ (hunknown _)⟩

/-- A depth with more digits than a number is written in is above the limit,
and there is nothing else to say against the table. But what comes up is that
the number cannot be written, which is no error of the settings. -/
theorem checked_of_huge_depth :
    let table : Table := [(maxDepthKey, .int (Nat.pow 10 5000))]
    FirstComplaint table {} (.depthAboveLimit 200 (Nat.pow 10 5000))
      ∧ checked (Value.literal Text.isHidden) table {}
        = .error (.raised .tooManyDigits) := by
  intro table
  have hkeys : (table.map Prod.fst).Nodup := List.nodup_singleton _
  have hresult : ofTable table {}
      = .error (.depthAboveLimit 200 (Nat.pow 10 5000)) :=
    ofTable_depthAboveLimit (by decide +kernel) (by decide +kernel)
  exact ⟨firstComplaint_of_error hkeys (.inl (.head _)) hresult,
    checked_of_unsaid hresult
      (message_of_huge_depth (by decide +kernel) (by decide +kernel))⟩

end Settings

end LicenseExpr
