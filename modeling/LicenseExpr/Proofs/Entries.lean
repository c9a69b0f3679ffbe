/-
The entries of tables, and what the complete table of a record holds.

A table is known by what is found under each key. Putting a value under a
key changes what is found under that key and nothing else, and no key comes
to be there twice. A complete record is its own fields with a few values put
under keys of their own, so what is found in it can be told key by key: the
event under its name, the text of an expression as far as it is shown, its
length if it is not shown in full, and the other fields as they were.
-/
import LicenseExpr.Log.Line

namespace LicenseExpr

open Text

variable {τ : Type}

-- ================================================== what tables hold

section Lookup

variable {table part : Table τ} {key : String} {value : Value τ}

/-- Where no key is there twice, what is found under a key is the entry that
the table has for it. -/
theorem lookup_eq_some_iff_mem (h : (table.map Prod.fst).Nodup) :
    table.lookup key = some value ↔ (key, value) ∈ table := by
  induction table with
  | nil => simp
  | cons entry table ih =>
      obtain ⟨name, old⟩ := entry
      rw [List.map_cons, List.nodup_cons] at h
      by_cases hkey : key = name
      · subst hkey
        have hnotMem : (key, value) ∉ table := fun hmem =>
          h.1 (List.mem_map.2 ⟨(key, value), hmem, rfl⟩)
        simp [hnotMem, eq_comm]
      -- another key is passed over on both sides
      · have hne : (key == name) = false := beq_eq_false_iff_ne.2 hkey
        simp [List.lookup_cons, hne, hkey, ih h.2]

/-- A part of a table has the same value under a key, if it has one. -/
theorem lookup_of_sublist (h : (table.map Prod.fst).Nodup)
    (hpart : part.Sublist table) (hlookup : part.lookup key = some value) :
    table.lookup key = some value := by
  have hnodup : (part.map Prod.fst).Nodup :=
    (hpart.map Prod.fst).nodup h
  rw [lookup_eq_some_iff_mem hnodup] at hlookup
  exact (lookup_eq_some_iff_mem h).2 (hpart.subset hlookup)

/-- What is found under a key does not depend on the order of the
entries. -/
theorem lookup_perm {table' : Table τ} (h : (table.map Prod.fst).Nodup)
    (hperm : table'.Perm table) (key : String) :
    table'.lookup key = table.lookup key := by
  have hnodup : (table'.map Prod.fst).Nodup :=
    (hperm.map Prod.fst).nodup_iff.2 h
  refine Option.ext fun value => ?_
  rw [lookup_eq_some_iff_mem hnodup, lookup_eq_some_iff_mem h,
    hperm.mem_iff]

end Lookup

namespace Table

variable (key : String) (value : Value τ)

/-- Putting a value under a key changes what is found there, and nothing
else. -/
theorem lookup_put (table : Table τ) (other : String) :
    (put key value table).lookup other
      = if other = key then some value else table.lookup other := by
  induction table with
  | nil =>
      by_cases h : other = key <;> simp [put, h]
  | cons entry table ih =>
      obtain ⟨name, old⟩ := entry
      unfold put
      by_cases hname : name = key
      · rw [if_pos hname, List.lookup_cons, List.lookup_cons]
        subst hname
        by_cases h : other = name
        · simp [h]
        · simp [h, beq_eq_false_iff_ne.2 h]
      · rw [if_neg hname, List.lookup_cons, List.lookup_cons, ih]
        by_cases h : other = name
        · subst h
          simp [hname]
        · simp [beq_eq_false_iff_ne.2 h]

/-- What is found after a value was put is that value, or was there. -/
theorem mem_put {table : Table τ} {entry : String × Value τ}
    (h : entry ∈ put key value table) :
    entry = (key, value) ∨ entry ∈ table := by
  induction table with
  | nil => exact .inl (List.mem_singleton.1 h)
  | cons first table ih =>
      obtain ⟨name, old⟩ := first
      unfold put at h
      by_cases hname : name = key
      · rw [if_pos hname, hname] at h
        rcases List.mem_cons.1 h with heq | hmem
        · exact .inl heq
        · exact .inr (.tail _ hmem)
      · rw [if_neg hname] at h
        rcases List.mem_cons.1 h with heq | hmem
        · exact .inr (heq ▸ .head _)
        · rcases ih hmem with heq | hmem
          · exact .inl heq
          · exact .inr (.tail _ hmem)

theorem mem_keys_put {table : Table τ} {other : String}
    (h : other ∈ (put key value table).map Prod.fst) :
    other = key ∨ other ∈ table.map Prod.fst := by
  obtain ⟨entry, hmem, rfl⟩ := List.mem_map.1 h
  rcases mem_put key value hmem with rfl | hmem
  · exact .inl rfl
  · exact .inr (List.mem_map_of_mem hmem)

/-- No key comes to be there twice. -/
theorem nodup_put {table : Table τ} (h : (table.map Prod.fst).Nodup) :
    ((put key value table).map Prod.fst).Nodup := by
  induction table with
  | nil => simp [put]
  | cons entry table ih =>
      obtain ⟨name, old⟩ := entry
      rw [List.map_cons, List.nodup_cons] at h
      unfold put
      by_cases hname : name = key
      · rw [if_pos hname]
        exact List.nodup_cons.2 h
      · rw [if_neg hname]
        refine List.nodup_cons.2 ⟨fun hmem => ?_, ih h.2⟩
        rcases mem_keys_put key value hmem with heq | hmem
        · exact hname heq
        · exact h.1 hmem

end Table

-- ====================================================== what is shown

namespace Log

/-- The text of an expression as it is logged. -/
def shown (text : CodePoints) : CodePoints :=
  if maxLogged < text.length then text.take maxLogged ++ points "..."
  else text

/-- The length of an expression, which is logged if it was cut. -/
def lengthShown? (text : CodePoints) : Option (Value CodePoints) :=
  if maxLogged < text.length then some (.int text.length) else none

/-- Shortening changes what is found under the key of the expression, and
the length if the text is cut. -/
theorem lookup_shorten {fields : Table CodePoints} {text : CodePoints}
    (h : fields.lookup expressionKey = some (.text text)) (key : String) :
    (shorten fields).lookup key
      = if key = lengthKey then (lengthShown? text).or (fields.lookup key)
        else if key = expressionKey then some (.text (shown text))
        else fields.lookup key := by
  unfold shorten lengthShown? shown
  rw [h]
  dsimp only
  by_cases hlong : maxLogged < text.length
  · rw [if_pos hlong, if_pos hlong, if_pos hlong, Table.lookup_put,
      Table.lookup_put]
    rfl
  · rw [if_neg hlong, if_neg hlong, if_neg hlong]
    by_cases hkey : key = expressionKey
    · subst hkey
      rw [h]
      rfl
    · simp [hkey]

/-- Without the text of an expression there is nothing to shorten. -/
theorem shorten_eq_self {fields : Table CodePoints}
    (h : ∀ text, fields.lookup expressionKey ≠ some (.text text)) :
    shorten fields = fields := by
  unfold shorten
  split
  case h_1 text htext => exact absurd htext (h text)
  case h_2 => rfl

/-- What is found under a key in the shortened fields is put there, or was
there. -/
theorem mem_shorten {fields : Table CodePoints}
    {entry : String × Value CodePoints}
    (h : entry ∈ shorten fields) :
    (∃ text, entry = (expressionKey, .text text))
      ∨ (∃ n, entry = (lengthKey, .int n)) ∨ entry ∈ fields := by
  unfold shorten at h
  split at h
  case h_1 text =>
    split at h
    case isTrue =>
      rcases Table.mem_put _ _ h with heq | hmem
      · exact .inr (.inl ⟨_, heq⟩)
      · rcases Table.mem_put _ _ hmem with heq | hmem
        · exact .inl ⟨_, heq⟩
        · exact .inr (.inr hmem)
    case isFalse => exact .inr (.inr h)
  case h_2 => exact .inr (.inr h)

/-- Shortening brings in no key twice. -/
theorem nodup_shorten {fields : Table CodePoints}
    (h : (fields.map Prod.fst).Nodup) :
    ((shorten fields).map Prod.fst).Nodup := by
  unfold shorten
  split
  case h_1 text =>
    split
    case isTrue => exact Table.nodup_put _ _ (Table.nodup_put _ _ h)
    case isFalse => exact h
  case h_2 => exact h

section Told

variable {a b : CodePoints}

/-- A length is shown for both texts or for neither. -/
theorem lt_iff_of_lengthShown?_eq (h : lengthShown? a = lengthShown? b) :
    maxLogged < a.length ↔ maxLogged < b.length := by
  unfold lengthShown? at h
  by_cases ha : maxLogged < a.length
  · by_cases hb : maxLogged < b.length
    · exact iff_of_true ha hb
    · rw [if_pos ha, if_neg hb] at h
      cases h
  · by_cases hb : maxLogged < b.length
    · rw [if_neg ha, if_pos hb] at h
      cases h
    · exact iff_of_false ha hb

/-- The units of what is shown in any case can be told from the units of all
that is shown. -/
theorem utf16_take_eq (hlength : lengthShown? a = lengthShown? b)
    (h : utf16 (shown a) = utf16 (shown b)) :
    utf16 (a.take maxLogged) = utf16 (b.take maxLogged) := by
  have hiff := lt_iff_of_lengthShown?_eq hlength
  unfold shown at h
  by_cases ha : maxLogged < a.length
  · rw [if_pos ha, if_pos (hiff.1 ha)] at h
    unfold utf16 at h ⊢
    rw [List.flatMap_append, List.flatMap_append] at h
    exact List.append_cancel_right h
  · have hb : ¬ maxLogged < b.length := fun hb => ha (hiff.2 hb)
    rw [if_neg ha, if_neg hb] at h
    rwa [List.take_of_length_le (Nat.not_lt.1 ha),
      List.take_of_length_le (Nat.not_lt.1 hb)]

/-- What is shown in any case can be told from all that is shown. -/
theorem take_eq_of_shown_eq (hlength : lengthShown? a = lengthShown? b)
    (h : shown a = shown b) : a.take maxLogged = b.take maxLogged := by
  have hiff := lt_iff_of_lengthShown?_eq hlength
  unfold shown at h
  by_cases ha : maxLogged < a.length
  · rw [if_pos ha, if_pos (hiff.1 ha)] at h
    exact List.append_cancel_right h
  · have hb : ¬ maxLogged < b.length := fun hb => ha (hiff.2 hb)
    rw [if_neg ha, if_neg hb] at h
    rw [h]

/-- A length that is not shown is that of what is shown. -/
theorem length_eq_of_take_eq (hlength : lengthShown? a = lengthShown? b)
    (h : a.take maxLogged = b.take maxLogged) : a.length = b.length := by
  -- both are cut or none is; cut texts are told apart by the length that is
  -- shown with them, others by what is shown
  have hiff := lt_iff_of_lengthShown?_eq hlength
  by_cases ha : maxLogged < a.length
  · unfold lengthShown? at hlength
    rw [if_pos ha, if_pos (hiff.1 ha), Option.some.injEq,
      Value.int.injEq] at hlength
    exact Int.ofNat_inj.1 hlength
  · have hb : ¬ maxLogged < b.length := fun hb => ha (hiff.2 hb)
    rw [List.take_of_length_le (Nat.not_lt.1 ha),
      List.take_of_length_le (Nat.not_lt.1 hb)] at h
    rw [h]

end Told

end Log

-- ====================================== the records of the library

/-- The text that an event is about, if it is about one. -/
def Event.expression? : Event τ → Option τ
  | parsed expression => some expression
  | parseFailed expression _ => some expression
  | depthExceeded expression _ _ => some expression
  | stackExhausted expression _ => some expression
  | depthLowered _ _ => none
  | settingsNotFound _ => none

namespace Log

/-- What is written for an event, before its expression is shortened. -/
def stamped (event : Event CodePoints) : Table CodePoints :=
  Table.put timestampKey (.text (points timestamp))
    (Table.put loggerKey (.text (points (loggerLabel event.logger)))
      (Table.put levelKey (.text (points Level.debug.name))
        (Table.put eventKey (.text (points event.name)) event.fields)))

variable (event : Event CodePoints)

/-- The complete record of an event is its fields with the columns put in,
shortened. -/
theorem complete_ofEvent :
    (Record.ofEvent event).complete = shorten (stamped event) := by
  have hfields : Table.ofEntries event.fields = event.fields := by
    cases event <;> rfl
  show shorten (Table.put _ _ (Table.put _ _ (Table.put _ _ (Table.put _ _
    (Table.ofEntries event.fields))))) = _
  rw [hfields]
  rfl

/-- Apart from the columns, the fields are the event's own. -/
theorem lookup_stamped {key : String} (hkey : key ∉ columns) :
    (stamped event).lookup key = event.fields.lookup key := by
  unfold columns at hkey
  simp only [List.mem_cons, List.not_mem_nil, or_false, not_or] at hkey
  unfold stamped
  simp only [Table.lookup_put, hkey, if_false]

/-- The expression of an event is among its fields. -/
theorem lookup_stamped_expression :
    (stamped event).lookup expressionKey
      = event.expression?.map .text := by
  rw [lookup_stamped event (by decide)]
  cases event <;> rfl

/-- Where there is no expression, nothing is shortened. -/
theorem complete_of_none (h : event.expression? = none) :
    (Record.ofEvent event).complete = stamped event := by
  rw [complete_ofEvent]
  refine shorten_eq_self fun text htext => ?_
  rw [lookup_stamped_expression, h] at htext
  cases htext

theorem lookup_stamped_of_some {text : CodePoints}
    (h : event.expression? = some text) :
    (stamped event).lookup expressionKey = some (.text text) := by
  rw [lookup_stamped_expression, h]
  rfl

/-- Shortening the expression of an event changes no other field. -/
theorem lookup_complete {key : String} (hlength : key ≠ lengthKey)
    (hexpression : key ≠ expressionKey) :
    (Record.ofEvent event).complete.lookup key
      = (stamped event).lookup key := by
  cases htext : event.expression? with
  | none => rw [complete_of_none event htext]
  | some text =>
      rw [complete_ofEvent,
        lookup_shorten (lookup_stamped_of_some event htext),
        if_neg hlength, if_neg hexpression]

/-- The name of an event is found under its key. -/
theorem lookup_complete_event :
    (Record.ofEvent event).complete.lookup eventKey
      = some (.text (points event.name)) := by
  rw [lookup_complete event (by decide) (by decide)]
  unfold stamped
  simp [Table.lookup_put, eventKey, timestampKey, loggerKey, levelKey]

/-- An expression is found as far as it is shown. -/
theorem lookup_complete_expression :
    (Record.ofEvent event).complete.lookup expressionKey
      = event.expression?.map fun text => .text (shown text) := by
  cases htext : event.expression? with
  | none =>
      rw [complete_of_none event htext, lookup_stamped_expression, htext]
      rfl
  | some text =>
      rw [complete_ofEvent,
        lookup_shorten (lookup_stamped_of_some event htext)]
      rfl

/-- A length is found where an expression is cut. -/
theorem lookup_complete_length :
    (Record.ofEvent event).complete.lookup lengthKey
      = event.expression?.bind lengthShown? := by
  have hnone : (stamped event).lookup lengthKey = none := by
    rw [lookup_stamped event (by decide)]
    cases event <;> rfl
  cases htext : event.expression? with
  | none => rw [complete_of_none event htext, hnone, Option.bind_none]
  | some text =>
      rw [complete_ofEvent,
        lookup_shorten (lookup_stamped_of_some event htext), if_pos rfl,
        hnone, Option.or_none, Option.bind_some]

/-- No key stands twice in the record of an event. -/
theorem nodup_complete :
    ((Record.ofEvent event).complete.map Prod.fst).Nodup := by
  have hfields : (event.fields.map Prod.fst).Nodup := by
    cases event <;> simp [Event.fields]
  rw [complete_ofEvent]
  refine nodup_shorten ?_
  unfold stamped
  iterate 4 refine Table.nodup_put _ _ ?_
  exact hfields

end Log

end LicenseExpr
