/-
Shortening the fields of a record: what changes, what stays, and what can
still be told of the text that was there.

# What changes

A value that is put under a key overwrites the entry of that key where it
stands, and is added at the end where there is none (`Table.put_eq`). So
shortening is one change made to each entry (`cutEntry`), and possibly a
length behind them: no entry is lost or moved, and those of other keys are
the same as before.

# What can be told

A text that was cut is longer than any that is left as it is, by the mark of
the cut. So what is shown says whether it was cut, and only then the length
is looked at. A length that the fields had before cannot be mistaken for it,
because cutting overwrites it.
-/
import LicenseExpr.Proofs.Entries

namespace LicenseExpr

open Text

-- ======================================================= what changes

namespace Table

variable {τ : Type} (key : String) (value : Value τ)

/-- An entry after a value was put under a key. -/
def overwritten (entry : String × Value τ) : String × Value τ :=
  if entry.1 = key then (key, value) else entry

theorem overwritten_fst (entry : String × Value τ) :
    (overwritten key value entry).1 = entry.1 := by
  unfold overwritten
  split
  case isTrue hkey => exact hkey.symm
  case isFalse => rfl

/-- Overwriting keeps the keys and their order. -/
theorem keys_overwritten (table : Table τ) :
    (table.map (overwritten key value)).map Prod.fst
      = table.map Prod.fst := by
  rw [List.map_map]
  exact List.map_congr_left fun entry _ => overwritten_fst key value entry

/-- Where the key is not there no entry changes. -/
theorem map_overwritten_of_notMem {table : Table τ}
    (h : key ∉ table.map Prod.fst) :
    table.map (overwritten key value) = table := by
  have hself : ∀ entry ∈ table, overwritten key value entry = id entry := by
    intro entry hmem
    refine if_neg fun hkey => h ?_
    rw [← hkey]
    exact List.mem_map_of_mem hmem
  rw [List.map_congr_left hself, List.map_id]

/-- Putting a value under a key overwrites the entry of the key where it
stands, or adds one at the end, and changes nothing else. -/
theorem put_eq {table : Table τ} (h : (table.map Prod.fst).Nodup) :
    put key value table
      = table.map (overwritten key value)
        ++ if key ∈ table.map Prod.fst then [] else [(key, value)] := by
  induction table with
  | nil => rfl
  | cons entry table ih =>
      obtain ⟨name, old⟩ := entry
      rw [List.map_cons, List.nodup_cons] at h
      unfold put
      by_cases hname : name = key
      · subst hname
        rw [if_pos rfl, if_pos (by simp), List.append_nil, List.map_cons,
          map_overwritten_of_notMem name value h.1]
        simp [overwritten]
      · have hentry : overwritten key value (name, old) = (name, old) :=
          if_neg hname
        rw [if_neg hname, ih h.2, List.map_cons, List.cons_append, hentry]
        by_cases hmem : key ∈ table.map Prod.fst
        · have hmem' : key ∈ ((name, old) :: table).map Prod.fst :=
            List.mem_cons_of_mem name hmem
          rw [if_pos hmem, if_pos hmem']
        · have hmem' : key ∉ ((name, old) :: table).map Prod.fst := by
            rw [List.map_cons, List.mem_cons]
            rintro (hkey | hrest)
            · exact hname hkey.symm
            · exact hmem hrest
          rw [if_neg hmem, if_neg hmem']

end Table

namespace Log

/-- An entry of the fields of a record, after the expression `text` in them
was cut. -/
def cutEntry (text : CodePoints) (entry : String × Value CodePoints) :
    String × Value CodePoints :=
  if entry.1 = expressionKey then
    (expressionKey, .text (text.take maxLogged ++ points "..."))
  else if entry.1 = lengthKey then (lengthKey, .int text.length)
  else entry

section Fields

variable {fields : Table CodePoints} {text : CodePoints}

/-- A text that is not too long is left as it is, and so is all the rest. -/
theorem shorten_of_le
    (h : ∀ text, fields.lookup expressionKey = some (.text text) →
      text.length ≤ maxLogged) : shorten fields = fields := by
  unfold shorten
  split
  case h_1 text htext => exact if_neg (Nat.not_lt.2 (h text htext))
  case h_2 => rfl

/-- Of a text that is too long the beginning is kept in its place, and its
length is put in place or added; all the rest is left as it is. -/
theorem shorten_of_lt (hkeys : (fields.map Prod.fst).Nodup)
    (h : fields.lookup expressionKey = some (.text text))
    (hlong : maxLogged < text.length) :
    shorten fields
      = fields.map (cutEntry text)
        ++ if lengthKey ∈ fields.map Prod.fst then []
          else [(lengthKey, .int text.length)] := by
  have hmem : expressionKey ∈ fields.map Prod.fst :=
    List.mem_map_of_mem ((lookup_eq_some_iff_mem hkeys).1 h)
  unfold shorten
  rw [h]
  dsimp only
  rw [if_pos hlong, Table.put_eq expressionKey _ hkeys, if_pos hmem,
    List.append_nil, Table.put_eq, Table.keys_overwritten, List.map_map]
  · refine congrArg (· ++ _) (List.map_congr_left fun entry _ => ?_)
    unfold cutEntry Table.overwritten
    rw [Function.comp_apply]
    by_cases hexpression : entry.1 = expressionKey
    · rw [if_pos hexpression, if_pos hexpression]
      exact if_neg (show expressionKey ≠ lengthKey by decide)
    · rw [if_neg hexpression, if_neg hexpression]
  · rw [Table.keys_overwritten]
    exact hkeys

end Fields

-- ==================================================== what can be told

theorem shown_of_lt {text : CodePoints} (h : maxLogged < text.length) :
    shown text = text.take maxLogged ++ points "..." :=
  if_pos h

/-- A text that was cut is longer than any that is left as it is. -/
theorem length_shown_of_lt {text : CodePoints}
    (h : maxLogged < text.length) : (shown text).length = maxLogged + 3 := by
  rw [shown_of_lt h, List.length_append, List.length_take,
    Nat.min_eq_left (Nat.le_of_lt h)]
  rfl

theorem shown_of_le {text : CodePoints} (h : text.length ≤ maxLogged) :
    shown text = text :=
  if_neg (Nat.not_lt.2 h)

/-- What is shown says whether it was cut. -/
theorem lt_iff_of_shown_eq {a b : CodePoints} (h : shown a = shown b) :
    maxLogged < a.length ↔ maxLogged < b.length := by
  have hlength := congrArg List.length h
  -- if only one was cut, the mark of the cut makes it the longer one
  by_cases ha : maxLogged < a.length
  · by_cases hb : maxLogged < b.length
    · exact iff_of_true ha hb
    · rw [length_shown_of_lt ha, shown_of_le (Nat.not_lt.1 hb)] at hlength
      omega
  · by_cases hb : maxLogged < b.length
    · rw [length_shown_of_lt hb, shown_of_le (Nat.not_lt.1 ha)] at hlength
      omega
    · exact iff_of_false ha hb

/-- What is shown of a text is shown again as it is. -/
theorem shown_shown (text : CodePoints) : shown (shown text) = shown text := by
  by_cases h : maxLogged < text.length
  · have hlong : maxLogged < (shown text).length := by
      rw [length_shown_of_lt h]
      omega
    rw [shown_of_lt hlong, shown_of_lt h, List.take_append_of_le_length,
      List.take_take, Nat.min_self]
    rw [List.length_take]
    omega
  · rw [shown_of_le (Nat.not_lt.1 h), shown_of_le (Nat.not_lt.1 h)]

section Fields

variable {fields fields' : Table CodePoints} {text text' : CodePoints}

/-- Under the key of the expression stands what is shown of it. -/
theorem lookup_shorten_expression
    (h : fields.lookup expressionKey = some (.text text)) :
    (shorten fields).lookup expressionKey = some (.text (shown text)) := by
  rw [lookup_shorten h, if_neg (by decide), if_pos rfl]

/-- Of a text that was cut the length is found. -/
theorem lookup_shorten_length
    (h : fields.lookup expressionKey = some (.text text))
    (hlong : maxLogged < text.length) :
    (shorten fields).lookup lengthKey = some (.int text.length) := by
  rw [lookup_shorten h, if_pos rfl, lengthShown?, if_pos hlong]
  rfl

/-- The expression and the length in the shortened fields tell how long the
text was and how it began. -/
theorem eq_of_shorten_eq
    (h : fields.lookup expressionKey = some (.text text))
    (h' : fields'.lookup expressionKey = some (.text text'))
    (hexpression : (shorten fields).lookup expressionKey
      = (shorten fields').lookup expressionKey)
    (hlength : (shorten fields).lookup lengthKey
      = (shorten fields').lookup lengthKey) :
    text.length = text'.length
      ∧ text.take maxLogged = text'.take maxLogged := by
  rw [lookup_shorten_expression h, lookup_shorten_expression h',
    Option.some.injEq, Value.text.injEq] at hexpression
  have hiff := lt_iff_of_shown_eq hexpression
  have hshown : lengthShown? text = lengthShown? text' := by
    unfold lengthShown?
    by_cases hlong : maxLogged < text.length
    · rw [lookup_shorten_length h hlong,
        lookup_shorten_length h' (hiff.1 hlong)] at hlength
      rw [if_pos hlong, if_pos (hiff.1 hlong), hlength]
    · rw [if_neg hlong, if_neg fun hlong' => hlong (hiff.2 hlong')]
  have htake := take_eq_of_shown_eq hshown hexpression
  exact ⟨length_eq_of_take_eq hshown htake, htake⟩

/-- Shortening again leaves the expression as it is. -/
theorem lookup_shorten_shorten (fields : Table CodePoints) :
    (shorten (shorten fields)).lookup expressionKey
      = (shorten fields).lookup expressionKey := by
  by_cases h : ∃ text, fields.lookup expressionKey = some (.text text)
  · obtain ⟨text, htext⟩ := h
    have hshown := lookup_shorten_expression htext
    rw [lookup_shorten_expression hshown, hshown, shown_shown]
  · have hself : shorten fields = fields :=
      shorten_eq_self fun text htext => h ⟨text, htext⟩
    rw [hself, hself]

end Fields

/-- Fields without a text of more than two hundred characters under the key
of the expression are left as they are. Such a text is cut to two hundred
characters and the mark of the cut, in its place; its length stands where a
length stood, or at the end; and every other entry is as it was and where it
was. So what is shown is the text, or has two hundred and three characters.
What is shown and the length after it tell how long the text was and how it
began, also where the fields came with a length of their own. Shortening
again leaves the expression as it is. -/
theorem shorten_changes_expression_only (fields : Table CodePoints)
    (hkeys : (fields.map Prod.fst).Nodup) :
    ((∀ text, fields.lookup expressionKey = some (.text text) →
        text.length ≤ 200) →
      shorten fields = fields)
    ∧ (∀ text, fields.lookup expressionKey = some (.text text) →
      200 < text.length →
      shorten fields
        = fields.map (cutEntry text)
          ++ if lengthKey ∈ fields.map Prod.fst then []
            else [(lengthKey, .int text.length)])
    ∧ (∀ text, fields.lookup expressionKey = some (.text text) →
      ∃ after, (shorten fields).lookup expressionKey = some (.text after)
        ∧ (text.length ≤ 200 → after = text)
        ∧ (200 < text.length → after.length = 203))
    ∧ (∀ fields' text text',
      fields.lookup expressionKey = some (.text text) →
      fields'.lookup expressionKey = some (.text text') →
      (shorten fields).lookup expressionKey
        = (shorten fields').lookup expressionKey →
      (shorten fields).lookup lengthKey
        = (shorten fields').lookup lengthKey →
      text.length = text'.length
        ∧ text.take 200 = text'.take 200)
    ∧ (shorten (shorten fields)).lookup expressionKey
      = (shorten fields).lookup expressionKey := by
  refine ⟨shorten_of_le, fun text h hlong => shorten_of_lt hkeys h hlong,
    fun text h => ⟨shown text, lookup_shorten_expression h, shown_of_le,
      length_shown_of_lt⟩,
    fun fields' text text' => eq_of_shorten_eq,
    lookup_shorten_shorten fields⟩

/-- The length that the fields came with stands in front of the expression
and is overwritten there. -/
theorem shorten_of_replicate :
    let text := List.replicate 201 (CodePoint.ofChar 'a')
    let fields : Table CodePoints :=
      [(lengthKey, .null), (expressionKey, .text text),
        (eventKey, .text (points "spdx_parsed"))]
    (fields.map Prod.fst).Nodup
      ∧ shorten fields
        = [(lengthKey, .int 201),
          (expressionKey,
            .text (List.replicate 200 (CodePoint.ofChar 'a')
              ++ points "...")),
          (eventKey, .text (points "spdx_parsed"))] := by
  intro text fields
  have hkeys : (fields.map Prod.fst).Nodup := by decide
  have hlength : text.length = 201 := List.length_replicate
  obtain ⟨-, hcut, -⟩ := shorten_changes_expression_only fields hkeys
  refine ⟨hkeys, ?_⟩
  rw [hcut text rfl (by omega), hlength, if_pos (by decide)]
  have htake : text.take maxLogged
      = List.replicate 200 (CodePoint.ofChar 'a') := by
    rw [List.take_replicate]
    rfl
  simp only [fields, List.map_cons, List.map_nil, cutEntry, htake, hlength]
  rfl

end Log

end LicenseExpr
