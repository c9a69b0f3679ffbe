/-
Lines for reading: what can be told from one.

# One line

A text with a line feed is quoted, and then its line feed is escaped. So
there is no line feed in what is written for an event.

# What was reported

The values of an event are texts and numbers, and which of the two stands
under a key is the same for all events (`Regular`). A value that is not
quoted has no blanks, and a blank comes before the next key; so the fields
behind the columns can be told apart (`joined_unique`). Nothing written for
an event ends in a blank, and so none of it is lost where a line is trimmed.
The name of the event is a word and ends at the first blank of its column.

# No line

A number with too many digits is not written, and then there is no line at
all (`Writable`). Nothing else stands in the way of one.
-/
import LicenseExpr.Log.Line
import LicenseExpr.Proofs.Entries
import LicenseExpr.Proofs.Escapes

namespace LicenseExpr.Log

open Text

-- ====================================================== regular entries

/-- The keys that events have texts under. -/
def textKeys : List String :=
  [expressionKey, "path", eventKey, levelKey, loggerKey, timestampKey]

/-- An entry of a record of the library: a key that is a plain word, and
under it a text or a number, as the key tells. -/
structure Regular (entry : String × Value CodePoints) : Prop where
  noEquals : '=' ∉ entry.1.toList
  noFeed : '\n' ∉ entry.1.toList
  text_of_mem : entry.1 ∈ textKeys → ∃ text, entry.2 = .text text
  int_of_notMem : entry.1 ∉ textKeys → ∃ n, entry.2 = .int n

/-- A text under one of the keys for texts is regular. -/
theorem Regular.of_text {key : String} (hkey : key ∈ textKeys)
    (text : CodePoints) : Regular (key, .text text) where
  noEquals := (by decide : ∀ key ∈ textKeys, '=' ∉ key.toList) key hkey
  noFeed := (by decide : ∀ key ∈ textKeys, '\n' ∉ key.toList) key hkey
  text_of_mem _ := ⟨text, rfl⟩
  int_of_notMem h := absurd hkey h

/-- The keys that events have numbers under. -/
def numberKeys : List String :=
  ["position", "requested", "max_depth", lengthKey]

/-- A number under one of the keys for numbers is regular. -/
theorem Regular.of_int {key : String} (hkey : key ∈ numberKeys) (n : Int) :
    Regular (key, .int n) where
  noEquals := (by decide : ∀ key ∈ numberKeys, '=' ∉ key.toList) key hkey
  noFeed := (by decide : ∀ key ∈ numberKeys, '\n' ∉ key.toList) key hkey
  text_of_mem h :=
    absurd h ((by decide : ∀ key ∈ numberKeys, key ∉ textKeys) key hkey)
  int_of_notMem _ := ⟨n, rfl⟩

/-- A value under a regular key is a text or a number. -/
theorem Regular.cases {entry : String × Value CodePoints}
    (h : Regular entry) :
    (∃ text, entry.2 = .text text) ∨ ∃ n, entry.2 = .int n := by
  by_cases hkey : entry.1 ∈ textKeys
  · exact .inl (h.text_of_mem hkey)
  · exact .inr (h.int_of_notMem hkey)

/-- The fields of an event are regular. -/
theorem regular_fields (event : Event CodePoints) :
    ∀ entry ∈ event.fields, Regular entry := by
  intro entry h
  cases event <;>
    simp only [Event.fields, List.mem_cons, List.not_mem_nil, or_false] at h
  case depthLowered =>
    rcases h with rfl | rfl <;> exact .of_int (by decide) _
  case parsed => exact h ▸ .of_text (by decide) _
  case parseFailed =>
    rcases h with rfl | rfl
    · exact .of_text (by decide) _
    · exact .of_int (by decide) _
  case depthExceeded =>
    rcases h with rfl | rfl | rfl
    · exact .of_text (by decide) _
    · exact .of_int (by decide) _
    · exact .of_int (by decide) _
  case stackExhausted =>
    rcases h with rfl | rfl
    · exact .of_text (by decide) _
    · exact .of_int (by decide) _
  case settingsNotFound => exact h ▸ .of_text (by decide) _

/-- All that is written for an event is regular. -/
theorem regular_complete (event : Event CodePoints) :
    ∀ entry ∈ (Record.ofEvent event).complete, Regular entry := by
  have hstamped : ∀ entry ∈ stamped event, Regular entry := by
    intro entry h
    unfold stamped at h
    iterate 4
      rcases Table.mem_put _ _ h with rfl | h
      · exact .of_text (by decide) _
    exact regular_fields event entry h
  intro entry h
  rw [complete_ofEvent] at h
  rcases mem_shorten h with ⟨text, rfl⟩ | ⟨n, rfl⟩ | h
  · exact .of_text (by decide) text
  · exact .of_int (by decide) n
  · exact hstamped entry h

-- ====================================================== numbers in lines

/-- The entry is no number with too many digits. -/
def HasText (entry : String × Value CodePoints) : Prop :=
  ∀ n, entry.2 = .int n → n.natAbs < digitsBound

/-- No number that is written for a record has too many digits. -/
def Writable (record : Record) : Prop :=
  ∀ key n, (key, .int n) ∈ record.complete → n.natAbs < digitsBound

/-- The same for the entries of the record, one by one. -/
theorem writable_iff_hasText {record : Record} :
    Writable record ↔ ∀ entry ∈ record.complete, HasText entry := by
  constructor
  · rintro h ⟨key, value⟩ hmem n rfl
    exact h key n hmem
  · intro h key n hmem
    exact h (key, .int n) hmem n rfl

/-- A character of a number. -/
def isNumericPoint (p : CodePoint) : Bool := p.char?.any isNumeric

/-- A number is written in such characters only. -/
theorem isNumericPoint_of_mem {n : Int} {p : CodePoint}
    (h : p ∈ points (toString n)) : isNumericPoint p = true := by
  obtain ⟨c, hc, rfl⟩ := List.mem_map.1 h
  unfold isNumericPoint
  rw [CodePoint.char?_ofChar]
  exact isNumeric_of_mem hc

-- ================================================= values in the console

/-- A code point that is no blank. -/
def isInk (p : CodePoint) : Bool := p != CodePoint.ofChar ' '

theorem isInk_of_not_needsQuotes {p : CodePoint}
    (h : needsQuotes p = false) : isInk p = true := by
  unfold isInk
  rw [bne_iff_ne]
  rintro rfl
  cases h

theorem isInk_of_isNumericPoint {p : CodePoint}
    (h : isNumericPoint p = true) : isInk p = true := by
  unfold isInk
  rw [bne_iff_ne]
  exact ne_of_class rfl h

/-- No number is quoted. -/
theorem needsQuotes_of_isNumericPoint {p : CodePoint}
    (h : isNumericPoint p = true) : needsQuotes p = false := by
  rw [Bool.eq_false_iff]
  intro hneeds
  obtain ⟨c, hc, rfl⟩ := List.mem_map.1 (List.contains_iff_mem.1 hneeds)
  have hnone : " \t=\r\n\"'".toList.all (!isNumeric ·) = true := by decide
  unfold isNumericPoint at h
  rw [CodePoint.char?_ofChar] at h
  exact absurd h (by simpa using List.all_eq_true.1 hnone c hc)

/-- What stands in a console line for the text or the number of a regular
entry. -/
def consoleText (hidden : Char → Bool) : Value CodePoints → CodePoints
  | .text text =>
      if text.any needsQuotes then points (quoted hidden text) else text
  | .int n => points (toString n)
  | _ => []

section Console

variable {hidden : Char → Bool}

/-- A regular value is written, unless it is a number with too many digits. -/
theorem consoleValue_of_hasText {entry : String × Value CodePoints}
    (h : Regular entry) (htext : HasText entry) :
    consoleValue hidden entry.2 = .ok (consoleText hidden entry.2) := by
  rcases h.cases with ⟨text, heq⟩ | ⟨n, heq⟩
  · rw [heq]
    rfl
  · rw [heq]
    show (decimal n).map points = _
    rw [decimal_of_lt (htext n heq)]
    rfl

/-- A number with too many digits is not written. -/
theorem consoleValue_of_not_hasText {entry : String × Value CodePoints}
    (h : ¬ HasText entry) :
    consoleValue hidden entry.2 = .error .tooManyDigits := by
  unfold HasText at h
  obtain ⟨n, h⟩ := Classical.not_forall.1 h
  obtain ⟨heq, hlarge⟩ := Classical.not_imp.1 h
  rw [heq]
  show (decimal n).map points = _
  rw [decimal_of_le (Nat.le_of_not_lt hlarge)]
  rfl

/-- One code point that needs quotes is enough for a literal. -/
theorem quoted_of_needsQuotes {text : CodePoints}
    (h : text.any needsQuotes = true) :
    consoleText hidden (.text text) = points (quoted hidden text) := by
  unfold consoleText
  exact if_pos h

/-- Any other text is written as it is. -/
theorem verbatim_of_not_needsQuotes {text : CodePoints}
    (h : ¬ text.any needsQuotes = true) :
    consoleText hidden (.text text) = text
      ∧ ∀ p ∈ text, needsQuotes p = false := by
  constructor
  · unfold consoleText
    exact if_neg h
  · intro p hp
    by_cases hneeds : needsQuotes p = true
    · exact absurd (List.any_eq_true.2 ⟨p, hp, hneeds⟩) h
    · exact Bool.not_eq_true _ ▸ hneeds

/-- What is written for a value is a literal, or no code point of it needs
quotes. -/
theorem consoleText_cases {entry : String × Value CodePoints}
    (h : Regular entry) :
    (∃ text : CodePoints,
        consoleText hidden entry.2 = points (quoted hidden text))
      ∨ ∀ p ∈ consoleText hidden entry.2, needsQuotes p = false := by
  rcases h.cases with ⟨text, heq⟩ | ⟨n, heq⟩
  · rw [heq]
    by_cases hneeds : text.any needsQuotes = true
    · exact .inl ⟨text, quoted_of_needsQuotes hneeds⟩
    · right
      have hverbatim : consoleText hidden (.text text) = text
          ∧ ∀ p ∈ text, needsQuotes p = false :=
        verbatim_of_not_needsQuotes hneeds
      rw [hverbatim.1]
      exact hverbatim.2
  · rw [heq]
    exact .inr fun p hp =>
      needsQuotes_of_isNumericPoint (isNumericPoint_of_mem hp)

/-- A literal begins with a character that would have to be quoted. -/
theorem exists_quote (hidden : Char → Bool) (text : CodePoints) :
    ∃ quote tail, points (quoted hidden text) = quote :: tail
      ∧ needsQuotes quote = true ∧ isInk quote = true := by
  have hquote : ∀ quote, IsQuote quote →
      needsQuotes (CodePoint.ofChar quote) = true
        ∧ isInk (CodePoint.ofChar quote) = true := by
    rintro quote (rfl | rfl) <;> decide
  unfold points
  rw [toList_quoted]
  exact ⟨_, _, rfl, hquote _ (isQuote_quoteFor text)⟩

/-- A text that is quoted is never written as one that is not. -/
theorem quoted_ne_verbatim {a b rest rest' : CodePoints}
    (hb : ∀ p ∈ b, needsQuotes p = false)
    (hrest' : NotAhead isInk rest') :
    points (quoted hidden a) ++ rest ≠ b ++ rest' := by
  obtain ⟨quote, tail, hquoted, hneeds, hink⟩ := exists_quote hidden a
  rw [hquoted, List.cons_append]
  intro h
  cases b with
  | nil =>
      rw [List.nil_append] at h
      rw [← h, notAhead_cons, hink] at hrest'
      cases hrest'
  | cons p b =>
      have hfirst := hb p (.head _)
      rw [← (List.cons.inj h).1, hneeds] at hfirst
      cases hfirst

/-- A literal can be told from the beginning of a line. What is behind it
may hold surrogates, so the line is first taken for what a reading sees. -/
theorem quotedPoints_unique {a b rest rest' : CodePoints}
    (h : points (quoted hidden a) ++ rest
      = points (quoted hidden b) ++ rest') : a = b ∧ rest = rest' := by
  have hchars := congrArg (List.map CodePoint.char) h
  rw [List.map_append, List.map_append, map_char_points, map_char_points]
    at hchars
  obtain ⟨rfl, -⟩ := quoted_unique hchars
  exact ⟨rfl, List.append_cancel_left h⟩

/-- Texts that begin the rest of a line and are over at the next blank are
the same, and so is what stands behind them. -/
theorem consoleText_unique {a b rest rest' : CodePoints}
    (h : consoleText hidden (.text a) ++ rest
      = consoleText hidden (.text b) ++ rest')
    (hrest : NotAhead isInk rest) (hrest' : NotAhead isInk rest') :
    a = b ∧ rest = rest' := by
  by_cases ha : a.any needsQuotes = true
  · rw [quoted_of_needsQuotes ha] at h
    by_cases hb : b.any needsQuotes = true
    · rw [quoted_of_needsQuotes hb] at h
      exact quotedPoints_unique h
    · obtain ⟨hverbatim, hpoints⟩ := verbatim_of_not_needsQuotes hb
      rw [hverbatim] at h
      exact absurd h (quoted_ne_verbatim hpoints hrest')
  · obtain ⟨hverbatim, hpoints⟩ := verbatim_of_not_needsQuotes ha
    rw [hverbatim] at h
    by_cases hb : b.any needsQuotes = true
    · rw [quoted_of_needsQuotes hb] at h
      exact absurd h.symm (quoted_ne_verbatim hpoints hrest)
    · obtain ⟨hverbatim', hpoints'⟩ := verbatim_of_not_needsQuotes hb
      rw [hverbatim'] at h
      exact run_unique h
        (fun p hp => isInk_of_not_needsQuotes (hpoints p hp))
        (fun p hp => isInk_of_not_needsQuotes (hpoints' p hp)) hrest hrest'

/-- Numbers that begin the rest of a line and end there are the same, and so
is what stands behind them. -/
theorem numberPoints_unique {m n : Int} {rest rest' : CodePoints}
    (h : points (toString m) ++ rest = points (toString n) ++ rest')
    (hrest : NotAhead isInk rest) (hrest' : NotAhead isInk rest') :
    m = n ∧ rest = rest' := by
  obtain ⟨hmn, hbehind⟩ := run_unique h
    (fun _ => isNumericPoint_of_mem) (fun _ => isNumericPoint_of_mem)
    (hrest.imp fun _ => isInk_of_isNumericPoint)
    (hrest'.imp fun _ => isInk_of_isNumericPoint)
  exact ⟨Int.repr_injective (points_injective hmn), hbehind⟩

/-- The values that regular entries have under the same key are the same, if
they begin the rest of a line and are over at the next blank. -/
theorem consoleValue_unique {key : String} {value value' : Value CodePoints}
    (hregular : Regular (key, value)) (hregular' : Regular (key, value'))
    {rest rest' : CodePoints}
    (h : consoleText hidden value ++ rest
      = consoleText hidden value' ++ rest')
    (hrest : NotAhead isInk rest) (hrest' : NotAhead isInk rest') :
    value = value' ∧ rest = rest' := by
  by_cases hkey : key ∈ textKeys
  · obtain ⟨a, rfl⟩ := hregular.text_of_mem hkey
    obtain ⟨b, rfl⟩ := hregular'.text_of_mem hkey
    obtain ⟨rfl, hbehind⟩ := consoleText_unique h hrest hrest'
    exact ⟨rfl, hbehind⟩
  · obtain ⟨m, rfl⟩ := hregular.int_of_notMem hkey
    obtain ⟨n, rfl⟩ := hregular'.int_of_notMem hkey
    obtain ⟨rfl, hbehind⟩ := numberPoints_unique h hrest hrest'
    exact ⟨rfl, hbehind⟩

/-- The line feed. -/
def feed : CodePoint := CodePoint.ofChar '\n'

/-- No value has a line feed in what is written for it: a literal escapes it,
and any other text with a line feed would be a literal. -/
theorem notMem_consoleText {entry : String × Value CodePoints}
    (h : Regular entry) : feed ∉ consoleText hidden entry.2 := by
  rcases consoleText_cases h with ⟨text, htext⟩ | hpoints
  · rw [htext]
    exact fun hmem => notMem_quoted hidden text (mem_points.1 hmem)
  · intro hmem
    exact absurd (hpoints feed hmem) (by decide)

-- ================================================== fields in the console

/-- What is written for a field behind the columns. -/
def fieldText (hidden : Char → Bool) (entry : String × Value CodePoints) :
    CodePoints :=
  points (" " ++ entry.1 ++ "=") ++ consoleText hidden entry.2

/-- Where all fields have texts, these are written one after the other. -/
theorem fieldTexts_of_hasText {fields : Table CodePoints}
    (hregular : ∀ entry ∈ fields, Regular entry)
    (h : ∀ entry ∈ fields, HasText entry) :
    fieldTexts hidden fields = .ok (fields.flatMap (fieldText hidden)) := by
  induction fields with
  | nil => rfl
  | cons entry fields ih =>
      rw [fieldTexts, consoleValue_of_hasText (hregular _ (.head _))
        (h _ (.head _)), ih (fun e he => hregular e (.tail _ he))
        (fun e he => h e (.tail _ he))]
      rfl

/-- Where a field has no text, neither have all of them together. -/
theorem fieldTexts_of_not_hasText {fields : Table CodePoints}
    (hregular : ∀ entry ∈ fields, Regular entry)
    {entry : String × Value CodePoints} (hmem : entry ∈ fields)
    (h : ¬ HasText entry) :
    fieldTexts hidden fields = .error .tooManyDigits := by
  induction fields with
  | nil => cases hmem
  | cons first fields ih =>
      rw [fieldTexts]
      by_cases hfirst : HasText first
      · rw [consoleValue_of_hasText (hregular _ (.head _)) hfirst]
        rcases List.mem_cons.1 hmem with rfl | hmem
        · exact absurd hfirst h
        · rw [ih (fun e he => hregular e (.tail _ he)) hmem]
          rfl
      · rw [consoleValue_of_not_hasText hfirst]
        rfl

/-- Behind a value the line is over, or the blank of the next field follows.
-/
theorem notAhead_flatMap_fieldText (fields : Table CodePoints) :
    NotAhead isInk (fields.flatMap (fieldText hidden)) := by
  cases fields with
  | nil => exact notAhead_nil
  | cons entry fields =>
      rw [List.flatMap_cons, fieldText, points_append, points_append]
      exact notAhead_cons.2 rfl

/-- A key ends at the first equals sign. -/
theorem key_unique {key key' : String} (h : '=' ∉ key.toList)
    (h' : '=' ∉ key'.toList) {rest rest' : CodePoints}
    (heq : points (" " ++ key ++ "=") ++ rest
      = points (" " ++ key' ++ "=") ++ rest') :
    key = key' ∧ rest = rest' := by
  have hword : ∀ k : String, '=' ∉ k.toList →
      ∀ p ∈ points k, (p != CodePoint.ofChar '=') = true := by
    intro k hk p hp
    rw [bne_iff_ne]
    rintro rfl
    exact hk (mem_points.1 hp)
  simp only [points_append, List.append_assoc] at heq
  obtain ⟨hkeys, hbehind⟩ := run_unique (List.append_cancel_left heq)
    (hword key h) (hword key' h') (notAhead_cons.2 rfl) (notAhead_cons.2 rfl)
  exact ⟨points_injective hkeys, List.append_cancel_left hbehind⟩

/-- Regular fields can be told from what is written for them. -/
theorem joined_unique {fields fields' : Table CodePoints}
    (hregular : ∀ entry ∈ fields, Regular entry)
    (hregular' : ∀ entry ∈ fields', Regular entry)
    (h : fields.flatMap (fieldText hidden)
      = fields'.flatMap (fieldText hidden)) : fields = fields' := by
  have hne : ∀ (entry : String × Value CodePoints) fields,
      (entry :: fields).flatMap (fieldText hidden) ≠ [] := by
    intro entry fields hnil
    rw [List.flatMap_cons, fieldText, points_append, points_append] at hnil
    cases hnil
  induction fields generalizing fields' with
  | nil =>
      cases fields' with
      | nil => rfl
      | cons entry' fields' => exact absurd h.symm (hne entry' fields')
  | cons entry fields ih =>
      cases fields' with
      | nil => exact absurd h (hne entry fields)
      | cons entry' fields' =>
          obtain ⟨key, value⟩ := entry
          obtain ⟨key', value'⟩ := entry'
          have hentry := hregular _ (.head _)
          have hentry' := hregular' _ (.head _)
          rw [List.flatMap_cons, List.flatMap_cons, fieldText, fieldText,
            List.append_assoc, List.append_assoc] at h
          -- the key up to its equals sign, then the value up to the next
          -- blank; the rest is by induction
          obtain ⟨rfl, hvalues⟩ :=
            key_unique hentry.noEquals hentry'.noEquals h
          obtain ⟨rfl, hfields⟩ := consoleValue_unique hentry hentry'
            hvalues (notAhead_flatMap_fieldText fields)
            (notAhead_flatMap_fieldText fields')
          rw [ih (fun e he => hregular e (.tail _ he))
            (fun e he => hregular' e (.tail _ he)) hfields]

/-- No field has a line feed. -/
theorem notMem_fieldText {entry : String × Value CodePoints}
    (h : Regular entry) : feed ∉ fieldText hidden entry := by
  have hkey : feed ∉ points (" " ++ entry.1 ++ "=") := by
    intro hmem
    have hchars := mem_points.1 hmem
    simp [h.noFeed] at hchars
  unfold fieldText
  rw [List.mem_append]
  rintro (hmem | hmem)
  · exact hkey hmem
  · exact notMem_consoleText h hmem

/-- The fields behind the columns are those of the table without the
columns. -/
theorem mem_consoleFields {fields : Table CodePoints}
    (h : (fields.map Prod.fst).Nodup) {entry : String × Value CodePoints} :
    entry ∈ consoleFields fields ↔ entry ∈ fields ∧ entry.1 ∉ columns := by
  unfold consoleFields
  generalize hothers :
    fields.filter (fun field => !columns.contains field.1) = others
  have hmem : ∀ e, e ∈ others ↔ e ∈ fields ∧ e.1 ∉ columns := by
    intro e
    rw [← hothers, List.mem_filter]
    simp
  have hnodup : (others.map Prod.fst).Nodup := by
    rw [← hothers]
    exact (List.filter_sublist.map Prod.fst).nodup h
  have hdistinct : others.Pairwise fun a b => ¬ compare a.1 b.1 = .eq :=
    (List.pairwise_map.1 hnodup).imp fun hne heq =>
      hne (Std.LawfulEqCmp.eq_of_compare heq)
  obtain ⟨key, value⟩ := entry
  rw [← hmem, Std.TreeMap.mem_toList_iff_getElem?_eq_some]
  constructor
  · intro hfound
    by_cases hkey : key ∈ others.map Prod.fst
    · obtain ⟨entry, hentry, rfl⟩ := List.mem_map.1 hkey
      rw [Std.TreeMap.getElem?_ofList_of_mem Std.ReflCmp.compare_self
        hdistinct hentry, Option.some.injEq] at hfound
      exact hfound ▸ hentry
    · rw [Std.TreeMap.getElem?_ofList_of_contains_eq_false
        (by simpa using hkey)] at hfound
      cases hfound
  · intro hentry
    exact Std.TreeMap.getElem?_ofList_of_mem Std.ReflCmp.compare_self
      hdistinct hentry

-- ============================================= the end of a console line

/-- The text does not end in a blank. -/
def EndsInInk (text : CodePoints) : Prop :=
  NotAhead (· == CodePoint.ofChar ' ') text.reverse

/-- Neither of two texts ends in a blank, so both together do not. -/
theorem EndsInInk.append {text text' : CodePoints} (h : EndsInInk text)
    (h' : EndsInInk text') : EndsInInk (text ++ text') := by
  unfold EndsInInk
  rw [List.reverse_append]
  by_cases hnil : text'.reverse = []
  · rw [hnil]
    exact h
  · exact (notAhead_append hnil).2 h'

/-- A text without blanks does not end in one. -/
theorem endsInInk_of_all {text : CodePoints}
    (h : ∀ p ∈ text, isInk p = true) : EndsInInk text := by
  intro p hp
  have hmem := List.mem_reverse.1 (List.mem_of_mem_head? hp)
  exact beq_eq_false_iff_ne.2 (bne_iff_ne.1 (h p hmem))

/-- The last character decides. -/
theorem endsInInk_points_append {text last : String} {c : Char}
    (hlast : last.toList = [c]) (hc : c ≠ ' ') :
    EndsInInk (points (text ++ last)) := by
  unfold EndsInInk
  rw [points_append, List.reverse_append, points, hlast]
  exact notAhead_cons.2
    (beq_eq_false_iff_ne.2 fun h => hc (CodePoint.ofChar_injective h))

/-- Nothing is lost of a text that does not end in a blank. -/
theorem trimRight_of_endsInInk {text : CodePoints} (h : EndsInInk text) :
    trimRight text = text := by
  have hkeep : ([] ++ text.reverse).dropWhile (· == CodePoint.ofChar ' ')
      = text.reverse := dropWhile_run nofun h
  rw [List.nil_append] at hkeep
  unfold trimRight
  rw [hkeep, List.reverse_reverse]

/-- A literal ends in a quote. -/
theorem endsInInk_quoted (text : CodePoints) :
    EndsInInk (points (quoted hidden text)) := by
  unfold EndsInInk points
  rw [toList_quoted, List.map_cons, List.map_append, List.reverse_cons,
    List.reverse_append]
  refine notAhead_cons.2 ?_
  rcases isQuote_quoteFor text with h | h
  · show (CodePoint.ofChar (quoteFor text) == _) = false
    rw [h]
    rfl
  · show (CodePoint.ofChar (quoteFor text) == _) = false
    rw [h]
    rfl

/-- No value ends in a blank, since a text with blanks is a literal. -/
theorem endsInInk_consoleText {entry : String × Value CodePoints}
    (h : Regular entry) : EndsInInk (consoleText hidden entry.2) := by
  rcases consoleText_cases h with ⟨text, htext⟩ | hpoints
  · rw [htext]
    exact endsInInk_quoted text
  · exact endsInInk_of_all fun p hp =>
      isInk_of_not_needsQuotes (hpoints p hp)

/-- And so no row of fields does. -/
theorem endsInInk_fields {fields : Table CodePoints}
    (h : ∀ entry ∈ fields, Regular entry) :
    EndsInInk (fields.flatMap (fieldText hidden)) := by
  induction fields with
  | nil => exact notAhead_nil
  | cons entry fields ih =>
      -- A value can be empty, but the equals sign is no blank either.
      have hsign : EndsInInk (points (" " ++ entry.1 ++ "=")) :=
        endsInInk_points_append rfl (by decide)
      have hvalue : EndsInInk (consoleText hidden entry.2) :=
        endsInInk_consoleText (h entry (.head _))
      rw [List.flatMap_cons]
      exact (hsign.append hvalue).append
        (ih fun e he => h e (.tail _ he))

-- ================================================== lines of the library

/-- What stands in front of the name of an event. -/
def lead : String := timestamp ++ " [" ++ padRight 9 Level.debug.name ++ "] "

/-- What stands between the name of an event and its fields. -/
def between (event : Event CodePoints) : String :=
  String.ofList (List.replicate (30 - event.name.length) ' ') ++ " ["
    ++ loggerLabel event.logger ++ "]"

theorem header_ofEvent (event : Event CodePoints) :
    header (Record.ofEvent event)
      = lead ++ (event.name ++ between event) := by
  simp [header, lead, between, padRight, Record.ofEvent, String.append_assoc]

/-- The fields behind the columns are among those that are written. -/
theorem regular_consoleFields (event : Event CodePoints) :
    ∀ entry ∈ consoleFields (Record.ofEvent event).complete,
      Regular entry := fun entry h =>
  regular_complete event entry
    ((mem_consoleFields (nodup_complete event)).1 h).1

/-- What is found under a key without a column is a field behind the
columns. -/
theorem lookup_complete_iff_mem (event : Event CodePoints) {key : String}
    (hkey : key ∉ columns) (value : Value CodePoints) :
    (Record.ofEvent event).complete.lookup key = some value
      ↔ (key, value) ∈ consoleFields (Record.ofEvent event).complete := by
  rw [lookup_eq_some_iff_mem (nodup_complete event),
    mem_consoleFields (nodup_complete event)]
  exact (and_iff_left hkey).symm

/-- There are texts in the columns, so all numbers stand behind them. -/
theorem writable_ofEvent_iff (event : Event CodePoints) :
    Writable (Record.ofEvent event)
      ↔ ∀ entry ∈ consoleFields (Record.ofEvent event).complete,
        HasText entry := by
  rw [writable_iff_hasText]
  constructor
  · intro h entry hmem
    exact h entry ((mem_consoleFields (nodup_complete event)).1 hmem).1
  · intro h entry hmem
    by_cases hcolumn : entry.1 ∈ columns
    · have hkey : entry.1 ∈ textKeys :=
        (by decide : ∀ key ∈ columns, key ∈ textKeys) _ hcolumn
      obtain ⟨text, htext⟩ :=
        (regular_complete event entry hmem).text_of_mem hkey
      intro n hn
      rw [htext] at hn
      cases hn
    · exact h entry ((mem_consoleFields (nodup_complete event)).2
        ⟨hmem, hcolumn⟩)

variable (hidden)

/-- The line of an event, in its parts. -/
theorem consoleLine_of_writable {event : Event CodePoints}
    (h : Writable (Record.ofEvent event)) :
    consoleLine hidden (Record.ofEvent event)
      = .ok (points lead ++ (points event.name ++ (points (between event)
        ++ (consoleFields (Record.ofEvent event).complete).flatMap
          (fieldText hidden)))) := by
  have hregular := regular_consoleFields event
  have hheader : EndsInInk (points (header (Record.ofEvent event))) :=
    endsInInk_points_append rfl (by decide)
  have hfields : EndsInInk
      ((consoleFields (Record.ofEvent event).complete).flatMap
        (fieldText hidden)) := endsInInk_fields hregular
  have hends := hheader.append hfields
  unfold consoleLine
  rw [fieldTexts_of_hasText hregular ((writable_ofEvent_iff event).1 h)]
  show Except.ok (trimRight _) = _
  rw [trimRight_of_endsInInk hends, header_ofEvent]
  simp

/-- One number with too many digits, and there is no line. -/
theorem consoleLine_of_not_writable {event : Event CodePoints}
    (h : ¬ Writable (Record.ofEvent event)) :
    consoleLine hidden (Record.ofEvent event) = .error .tooManyDigits := by
  rw [writable_ofEvent_iff] at h
  -- which of the fields it is makes no difference to what comes up
  obtain ⟨entry, h⟩ := Classical.not_forall.1 h
  obtain ⟨hmem, htext⟩ := Classical.not_imp.1 h
  unfold consoleLine
  rw [fieldTexts_of_not_hasText (regular_consoleFields event) hmem htext]
  rfl

/-- There is no line feed in the line of an event. -/
theorem notMem_consoleLine {event : Event CodePoints} {text : CodePoints}
    (h : consoleLine hidden (Record.ofEvent event) = .ok text) :
    feed ∉ text := by
  have hhead : '\n' ∉ (lead ++ (event.name ++ between event)).toList := by
    cases event <;> dsimp only [between, Event.name, Event.logger] <;> decide
  by_cases hwritable : Writable (Record.ofEvent event)
  · rw [consoleLine_of_writable hidden hwritable] at h
    cases h
    intro hmem
    rw [← List.append_assoc, ← List.append_assoc,
      List.append_assoc (points lead), List.mem_append, List.mem_flatMap,
      ← points_append, ← points_append] at hmem
    rcases hmem with hmem | ⟨entry, hentry, hmem⟩
    · exact hhead (mem_points.1 hmem)
    · exact notMem_fieldText (regular_consoleFields event entry hentry) hmem
  · rw [consoleLine_of_not_writable hidden hwritable] at h
    cases h

/-- Events of one name come from one logger. -/
theorem between_eq_of_name_eq {a b : Event CodePoints}
    (h : a.name = b.name) : between a = between b := by
  have hlogger : ∀ event : Event CodePoints, event.logger =
      if event.name = "config_not_found" then "spdx_expression.config"
      else "spdx_expression.parser" := by
    intro event
    cases event <;> rfl
  unfold between
  rw [hlogger a, hlogger b, h]

/-- The name of an event is one word. -/
theorem name_isInk (event : Event CodePoints) :
    ∀ p ∈ points event.name, isInk p = true := by
  have hall : (points event.name).all isInk = true := by
    cases event <;> dsimp only [Event.name] <;> decide
  exact List.all_eq_true.1 hall

/-- Behind the name of an event its column is filled up with blanks, or one
parts it from the next column. -/
theorem notAhead_between (event : Event CodePoints) (rest : CodePoints) :
    NotAhead isInk (points (between event) ++ rest) := by
  unfold between
  simp only [points_append, points_ofList, List.append_assoc]
  cases 30 - event.name.length with
  | zero => exact notAhead_cons.2 rfl
  | succ n => exact notAhead_cons.2 rfl

/-- A line for reading tells the name of its event, and all that has no
column of its own. -/
theorem consoleLine_unique {a b : Event CodePoints} {text : CodePoints}
    (ha : consoleLine hidden (Record.ofEvent a) = .ok text)
    (hb : consoleLine hidden (Record.ofEvent b) = .ok text) :
    a.name = b.name ∧ ∀ key ∉ columns,
      (Record.ofEvent a).complete.lookup key
        = (Record.ofEvent b).complete.lookup key := by
  by_cases hwritable : Writable (Record.ofEvent a)
  · by_cases hwritable' : Writable (Record.ofEvent b)
    · rw [consoleLine_of_writable hidden hwritable] at ha
      rw [consoleLine_of_writable hidden hwritable'] at hb
      have hpoints := Except.ok.inj (ha.trans hb.symm)
      obtain ⟨hname, hbehind⟩ := run_unique
        (List.append_cancel_left hpoints) (name_isInk a) (name_isInk b)
        (notAhead_between a _) (notAhead_between b _)
      have hname : a.name = b.name := points_injective hname
      -- the logger's column says nothing that the name has not said
      rw [between_eq_of_name_eq hname] at hbehind
      have hfields := joined_unique (regular_consoleFields a)
        (regular_consoleFields b) (List.append_cancel_left hbehind)
      refine ⟨hname, fun key hkey => Option.ext fun value => ?_⟩
      rw [lookup_complete_iff_mem a hkey, lookup_complete_iff_mem b hkey,
        hfields]
    · rw [consoleLine_of_not_writable hidden hwritable'] at hb
      cases hb
  · rw [consoleLine_of_not_writable hidden hwritable] at ha
    cases ha

end Console

end LicenseExpr.Log
