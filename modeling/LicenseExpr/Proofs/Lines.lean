/-
Log lines: each event takes one, if it has one at all, and tells there what
it is about.

# In JSON

A line is a table of regular entries. A key ends with its quote and a text
with its own; a number ends where no digit follows, and what follows is a
comma or the brace. So from the line can be told the keys of the whole table
and, under each, the number or the units of the text (`members_unique`).

# The same events

A line of either format tells the name of its event and what is kept of its
complete record: all of it for reading, and in JSON the units in place of
the texts. What a complete record has under the key of the expression,
together with the length under a key of its own where the text was cut, is
enough to tell as much of the whole text as is shown, and how long it is.
What it has under the other keys is as the event has it.

# Pairs of surrogates

JSON has the same units for a pair of surrogates and for the code point that
the pair stands for. So there are texts of different lengths with the same
lines, and in JSON two texts can only be told apart as far as there are no
pairs in them.
-/
import LicenseExpr.Proofs.Console
import LicenseExpr.Proofs.Reporting
import LicenseExpr.Session
import Mathlib.Data.List.Basic

namespace LicenseExpr

open Text

namespace Log

-- ========================================================= lines of JSON

/-- What JSON has for the text or the number of a regular entry. -/
def jsonText : Value CodePoints → String
  | .text text => Text.json text
  | .int n => toString n
  | _ => ""

/-- What JSON has for a regular entry. -/
def member (entry : String × Value CodePoints) : String :=
  Text.json entry.1 ++ ": " ++ jsonText entry.2

/-- What JSON has behind an entry, if these are the others. -/
def membersBehind : Table CodePoints → List Char
  | [] => ['\x7d']
  | entry :: entries =>
      ',' :: ' ' :: ((member entry).toList ++ membersBehind entries)

/-- The JSON object of regular entries. -/
def object (fields : Table CodePoints) : String :=
  bracketed "\x7b" "\x7d" (fields.map member)

section Object

variable {hidden : Char → Bool}

/-- A regular value is written in JSON, unless it is a number with too many
digits. -/
theorem json_of_hasText {entry : String × Value CodePoints}
    (h : Regular entry) (htext : HasText entry) :
    entry.2.json hidden = .ok (jsonText entry.2) := by
  rcases h.cases with ⟨text, heq⟩ | ⟨n, heq⟩
  · rw [heq]
    rfl
  · rw [heq]
    exact decimal_of_lt (htext n heq)

/-- A number with too many digits is not written in JSON either. -/
theorem json_of_not_hasText {entry : String × Value CodePoints}
    (h : ¬ HasText entry) :
    entry.2.json hidden = .error .tooManyDigits := by
  unfold HasText at h
  obtain ⟨n, h⟩ := Classical.not_forall.1 h
  obtain ⟨heq, hlarge⟩ := Classical.not_imp.1 h
  rw [heq]
  exact decimal_of_le (Nat.le_of_not_lt hlarge)

/-- Where all fields have texts, these are the members of the object. -/
theorem jsonMembers_of_hasText {fields : Table CodePoints}
    (hregular : ∀ entry ∈ fields, Regular entry)
    (h : ∀ entry ∈ fields, HasText entry) :
    Value.jsonMembers hidden fields = .ok (fields.map member) := by
  induction fields with
  | nil => rfl
  | cons entry fields ih =>
      rw [Value.jsonMembers, json_of_hasText (hregular _ (.head _))
        (h _ (.head _)), ih (fun e he => hregular e (.tail _ he))
        (fun e he => h e (.tail _ he))]
      rfl

/-- Where a field has no text, neither has the object. -/
theorem jsonMembers_of_not_hasText {fields : Table CodePoints}
    (hregular : ∀ entry ∈ fields, Regular entry)
    {entry : String × Value CodePoints} (hmem : entry ∈ fields)
    (h : ¬ HasText entry) :
    Value.jsonMembers hidden fields = .error .tooManyDigits := by
  induction fields with
  | nil => cases hmem
  | cons first fields ih =>
      rw [Value.jsonMembers]
      by_cases hfirst : HasText first
      · rw [json_of_hasText (hregular _ (.head _)) hfirst]
        rcases List.mem_cons.1 hmem with rfl | hmem
        · exact absurd hfirst h
        · rw [ih (fun e he => hregular e (.tail _ he)) hmem]
          rfl
      · rw [json_of_not_hasText hfirst]
        rfl

end Object

/-- The first member has no comma in front, and the brace follows the last. -/
theorem toList_members (entry : String × Value CodePoints)
    (entries : Table CodePoints) :
    (", ".intercalate ((entry :: entries).map member) ++ "\x7d").toList
      = (member entry).toList ++ membersBehind entries := by
  induction entries generalizing entry with
  | nil => simp [membersBehind]
  | cons next entries ih =>
      have hnext := ih next
      simp only [List.map_cons] at hnext ⊢
      rw [String.intercalate_cons_cons]
      simp only [String.toList_append, List.append_assoc] at hnext ⊢
      rw [hnext]
      simp [membersBehind]

/-- An object with entries, as the characters of its line. -/
theorem toList_object_cons (entry : String × Value CodePoints)
    (entries : Table CodePoints) :
    (object (entry :: entries)).toList
      = '\x7b' :: ((member entry).toList ++ membersBehind entries) := by
  rw [object, bracketed, String.append_assoc, String.toList_append,
    toList_members]
  simp

/-- An object without entries. -/
theorem toList_object_nil : (object []).toList = ['\x7b', '\x7d'] := by
  simp [object, bracketed]

/-- A member is its key, then a colon and a blank, then its value. -/
theorem toList_member (entry : String × Value CodePoints) :
    (member entry).toList
      = (Text.json entry.1).toList
        ++ ':' :: ' ' :: (jsonText entry.2).toList := by
  simp [member]

/-- A member begins with the quote of its key. -/
theorem exists_member (entry : String × Value CodePoints) :
    ∃ tail, (member entry).toList = '"' :: tail := by
  rw [toList_member]
  unfold Text.json
  rw [String.toList_ofList]
  exact ⟨_, rfl⟩

/-- An object without entries differs from one that has some. -/
theorem object_nil_ne_cons (entry : String × Value CodePoints)
    (entries : Table CodePoints) : object [] ≠ object (entry :: entries) := by
  obtain ⟨tail, hquote⟩ := exists_member entry
  intro h
  have hchars := congrArg String.toList h
  rw [toList_object_nil, toList_object_cons, hquote] at hchars
  exact absurd (List.cons.inj (List.cons.inj hchars).2).1 (by decide)

/-- A comma or the brace stands behind a value, so a number ends there. -/
theorem notAhead_membersBehind (entries : Table CodePoints) :
    NotAhead isNumeric (membersBehind entries) := by
  cases entries with
  | nil => exact notAhead_cons.2 rfl
  | cons entry entries => exact notAhead_cons.2 rfl

-- ======================================================= what JSON keeps

/-- What JSON keeps of a text or a number: the units of the one, and all of
the other. -/
def kept : Value CodePoints → Int ⊕ List Nat
  | .int n => .inl n
  | .text text => .inr (utf16 text)
  | _ => .inr []

/-- Nothing is lost of a number. -/
theorem eq_of_kept_eq_int {value : Value CodePoints} {n : Int}
    (h : kept value = kept (.int n)) : value = .int n := by
  unfold kept at h
  split at h <;> cases h
  rfl

/-- What JSON keeps of an entry. -/
def keptEntry (entry : String × Value CodePoints) :
    String × (Int ⊕ List Nat) :=
  (entry.1, kept entry.2)

/-- What is kept is found under the same key. -/
theorem lookup_map_keptEntry (fields : Table CodePoints) (key : String) :
    (fields.map keptEntry).lookup key = (fields.lookup key).map kept := by
  induction fields with
  | nil => rfl
  | cons entry fields ih =>
      obtain ⟨name, value⟩ := entry
      rw [List.map_cons, keptEntry, List.lookup_cons, List.lookup_cons, ih]
      cases key == name <;> rfl

/-- What is kept of a regular entry can be told from what JSON has for
it. -/
theorem member_unique {entry entry' : String × Value CodePoints}
    (hregular : Regular entry) (hregular' : Regular entry')
    {rest rest' : List Char}
    (h : (member entry).toList ++ rest = (member entry').toList ++ rest')
    (hrest : NotAhead isNumeric rest) (hrest' : NotAhead isNumeric rest') :
    keptEntry entry = keptEntry entry' ∧ rest = rest' := by
  obtain ⟨key, value⟩ := entry
  obtain ⟨key', value'⟩ := entry'
  rw [toList_member, toList_member, List.append_assoc, List.append_assoc]
    at h
  -- the keys are the same, and by the key both values are texts or both are
  -- numbers
  obtain ⟨rfl, hvalues⟩ := jsonString_unique h
  have hvalues := (List.cons.inj (List.cons.inj hvalues).2).2
  by_cases hkey : key ∈ textKeys
  · obtain ⟨a, rfl⟩ := hregular.text_of_mem hkey
    obtain ⟨b, rfl⟩ := hregular'.text_of_mem hkey
    obtain ⟨hunits, hbehind⟩ := json_unique hvalues
    exact ⟨congrArg (key, Sum.inr ·) hunits, hbehind⟩
  · obtain ⟨m, rfl⟩ := hregular.int_of_notMem hkey
    obtain ⟨n, rfl⟩ := hregular'.int_of_notMem hkey
    obtain ⟨rfl, hbehind⟩ := toString_unique hvalues hrest hrest'
    exact ⟨rfl, hbehind⟩

/-- Behind an entry the others can be told, down to the brace. -/
theorem membersBehind_unique {entries entries' : Table CodePoints}
    (hregular : ∀ entry ∈ entries, Regular entry)
    (hregular' : ∀ entry ∈ entries', Regular entry)
    (h : membersBehind entries = membersBehind entries') :
    entries.map keptEntry = entries'.map keptEntry := by
  induction entries generalizing entries' with
  | nil =>
      cases entries' with
      | nil => rfl
      | cons entry' entries' => cases h
  | cons entry entries ih =>
      cases entries' with
      | nil => cases h
      | cons entry' entries' =>
          unfold membersBehind at h
          obtain ⟨hentry, hbehind⟩ := member_unique
            (hregular _ (.head _)) (hregular' _ (.head _))
            (List.cons.inj (List.cons.inj h).2).2
            (notAhead_membersBehind entries)
            (notAhead_membersBehind entries')
          rw [List.map_cons, List.map_cons, hentry,
            ih (fun e he => hregular e (.tail _ he))
              (fun e he => hregular' e (.tail _ he)) hbehind]

/-- What is kept of a table of regular entries can be told from its JSON
object. -/
theorem members_unique {fields fields' : Table CodePoints}
    (hregular : ∀ entry ∈ fields, Regular entry)
    (hregular' : ∀ entry ∈ fields', Regular entry)
    (h : object fields = object fields') :
    fields.map keptEntry = fields'.map keptEntry := by
  cases fields with
  | nil =>
      cases fields' with
      | nil => rfl
      | cons entry' fields' => exact absurd h (object_nil_ne_cons _ _)
  | cons entry fields =>
      cases fields' with
      | nil => exact absurd h.symm (object_nil_ne_cons _ _)
      | cons entry' fields' =>
          have hchars := congrArg String.toList h
          rw [toList_object_cons, toList_object_cons] at hchars
          obtain ⟨hentry, hbehind⟩ := member_unique
            (hregular _ (.head _)) (hregular' _ (.head _))
            (List.cons.inj hchars).2 (notAhead_membersBehind fields)
            (notAhead_membersBehind fields')
          rw [List.map_cons, List.map_cons, hentry,
            membersBehind_unique (fun e he => hregular e (.tail _ he))
              (fun e he => hregular' e (.tail _ he)) hbehind]

/-- No member has a line feed. -/
theorem notMem_member {entry : String × Value CodePoints}
    (h : Regular entry) : '\n' ∉ (member entry).toList := by
  have hvalue : '\n' ∉ (jsonText entry.2).toList := by
    rcases h.cases with ⟨text, htext⟩ | ⟨n, hn⟩
    · rw [htext]
      exact notMem_json text
    · rw [hn]
      intro hmem
      exact absurd (isNumeric_of_mem hmem) (by decide)
  rw [toList_member]
  simp [notMem_json, hvalue]

/-- Nor have the members behind it. -/
theorem notMem_membersBehind {entries : Table CodePoints}
    (h : ∀ entry ∈ entries, Regular entry) :
    '\n' ∉ membersBehind entries := by
  induction entries with
  | nil => decide
  | cons entry entries ih =>
      unfold membersBehind
      simp [notMem_member (h _ (.head _)), ih fun e he => h e (.tail _ he)]

/-- Nor has the object. -/
theorem notMem_object {fields : Table CodePoints}
    (h : ∀ entry ∈ fields, Regular entry) :
    '\n' ∉ (object fields).toList := by
  cases fields with
  | nil => simp [toList_object_nil]
  | cons entry fields =>
      rw [toList_object_cons]
      simp [notMem_member (h _ (.head _)),
        notMem_membersBehind fun e he => h e (.tail _ he)]

-- ====================================================== either format

section Line

variable {format : Format} {hidden : Char → Bool} {event : Event CodePoints}
  {text : CodePoints}

/-- The line of an event in JSON. -/
theorem jsonLine_of_writable (h : Writable (Record.ofEvent event)) :
    jsonLine hidden (Record.ofEvent event)
      = .ok (points (object (Record.ofEvent event).complete)) := by
  unfold jsonLine
  rw [Value.json, jsonMembers_of_hasText (regular_complete event)
    (writable_iff_hasText.1 h)]
  rfl

/-- One number with too many digits, and there is no line in JSON. -/
theorem jsonLine_of_not_writable (h : ¬ Writable (Record.ofEvent event)) :
    jsonLine hidden (Record.ofEvent event) = .error .tooManyDigits := by
  rw [writable_iff_hasText] at h
  obtain ⟨entry, h⟩ := Classical.not_forall.1 h
  obtain ⟨hmem, htext⟩ := Classical.not_imp.1 h
  unfold jsonLine
  rw [Value.json,
    jsonMembers_of_not_hasText (regular_complete event) hmem htext]
  rfl

/-- An event with a number that is too long has no line in either format. -/
theorem line_of_not_writable (h : ¬ Writable (Record.ofEvent event)) :
    line format (Record.ofEvent event) hidden = .error .tooManyDigits := by
  cases format with
  | console => exact consoleLine_of_not_writable hidden h
  | json => exact jsonLine_of_not_writable h

/-- Every other event has one. -/
theorem line_eq_ok_iff :
    (∃ text, line format (Record.ofEvent event) hidden = .ok text)
      ↔ Writable (Record.ofEvent event) := by
  constructor
  · intro h
    obtain ⟨text, htext⟩ := h
    refine Classical.byContradiction fun hnot => ?_
    rw [line_of_not_writable hnot] at htext
    cases htext
  · intro h
    cases format with
    | console => exact ⟨_, consoleLine_of_writable hidden h⟩
    | json => exact ⟨_, jsonLine_of_writable h⟩

/-- There is no line feed in what is written for an event. -/
theorem notMem_line
    (h : line format (Record.ofEvent event) hidden = .ok text) :
    feed ∉ text := by
  have hwritable := line_eq_ok_iff.1 ⟨text, h⟩
  cases format with
  | console => exact notMem_consoleLine hidden h
  | json =>
      obtain rfl := Except.ok.inj
        ((jsonLine_of_writable hwritable).symm.trans h)
      exact fun hmem =>
        notMem_object (regular_complete event) (mem_points.1 hmem)

/-- A text without line feeds takes one physical line. -/
theorem physicalLines_eq_singleton (h : feed ∉ text) :
    physicalLines text = [text] :=
  List.splitOn_eq_singleton h

/-- The name of an event, and what is kept under the keys without a column,
can be told from its line; and in a line for reading all of it is kept. -/
theorem line_unique {a b : Event CodePoints}
    (ha : line format (Record.ofEvent a) hidden = .ok text)
    (hb : line format (Record.ofEvent b) hidden = .ok text) :
    a.name = b.name ∧ ∀ key ∉ columns,
      ((Record.ofEvent a).complete.lookup key).map kept
        = ((Record.ofEvent b).complete.lookup key).map kept
      ∧ (format = .console →
        (Record.ofEvent a).complete.lookup key
          = (Record.ofEvent b).complete.lookup key) := by
  have hwritable := line_eq_ok_iff.1 ⟨text, ha⟩
  have hwritable' := line_eq_ok_iff.1 ⟨text, hb⟩
  cases format with
  | console =>
      obtain ⟨hname, hlookup⟩ := consoleLine_unique hidden ha hb
      exact ⟨hname, fun key hkey =>
        ⟨congrArg (Option.map kept) (hlookup key hkey),
          fun _ => hlookup key hkey⟩⟩
  | json =>
      -- in JSON the name of the event is one of the members
      have hlines := (jsonLine_of_writable hwritable).symm.trans
        (ha.trans (hb.symm.trans (jsonLine_of_writable hwritable')))
      have hkept := members_unique (regular_complete a) (regular_complete b)
        (points_injective (Except.ok.inj hlines))
      have hlookup : ∀ key,
          ((Record.ofEvent a).complete.lookup key).map kept
            = ((Record.ofEvent b).complete.lookup key).map kept := by
        intro key
        rw [← lookup_map_keptEntry, ← lookup_map_keptEntry, hkept]
      refine ⟨?_, fun key _ => ⟨hlookup key, nofun⟩⟩
      have hname := hlookup eventKey
      rw [lookup_complete_event, lookup_complete_event] at hname
      have hunits := Sum.inr.inj (Option.some.inj hname)
      exact points_injective (eq_of_utf16_eq (unpaired_points a.name)
        (unpaired_points b.name) hunits)

end Line

-- ================================================== events told apart

/-- What lines of a format tell of two texts if they show both alike: the
units of as much of them as is shown in any case, the lengths if a text is
cut; and all of the lengths and of what is shown, unless a line is in JSON
and there is a pair of surrogates. -/
structure ShownAlike (format : Format) (a b : CodePoints) : Prop where
  units : utf16 (a.take maxLogged) = utf16 (b.take maxLogged)
  length_of_cut : maxLogged < a.length ∨ maxLogged < b.length →
    a.length = b.length
  exact : format = .console
      ∨ Unpaired (a.take maxLogged) ∧ Unpaired (b.take maxLogged) →
    a.length = b.length ∧ a.take maxLogged = b.take maxLogged

/-- Texts are shown alike if lines of the format show the same under the keys
of the expression and of its length. -/
theorem shownAlike_of_lookups {format : Format} {a b : CodePoints}
    (hlength : lengthShown? a = lengthShown? b)
    (hunits : utf16 (shown a) = utf16 (shown b))
    (hexact : format = .console → shown a = shown b) :
    ShownAlike format a b where
  units := utf16_take_eq hlength hunits
  length_of_cut hcut := by
    have hiff := lt_iff_of_lengthShown?_eq hlength
    have ha : maxLogged < a.length := hcut.elim id hiff.2
    unfold lengthShown? at hlength
    rw [if_pos ha, if_pos (hiff.1 ha), Option.some.injEq,
      Value.int.injEq] at hlength
    exact Int.ofNat_inj.1 hlength
  exact h := by
    have htake : a.take maxLogged = b.take maxLogged := by
      rcases h with hconsole | ⟨ha, hb⟩
      · exact take_eq_of_shown_eq hlength (hexact hconsole)
      · exact eq_of_utf16_eq ha hb (utf16_take_eq hlength hunits)
    exact ⟨length_eq_of_take_eq hlength htake, htake⟩

end Log

/-- Two events tell the same in lines of a format: the same name and
numbers, and of their expressions what lines of the format tell. -/
structure Event.TellsSame (format : Log.Format) (a b : Event CodePoints) :
    Prop where
  name : a.name = b.name
  position : a.fields.lookup "position" = b.fields.lookup "position"
  requested : a.fields.lookup "requested" = b.fields.lookup "requested"
  maxDepth : a.fields.lookup "max_depth" = b.fields.lookup "max_depth"
  expression : Option.Rel (Log.ShownAlike format) a.expression? b.expression?

namespace Log

variable {format : Format} {hidden : Char → Bool} {a b : Event CodePoints}
  {text : CodePoints}

/-- What is found under the key of a number is a number. -/
theorem int_of_lookup_complete {key : String} {value : Value CodePoints}
    (hkey : key ∉ textKeys)
    (h : (Record.ofEvent a).complete.lookup key = some value) :
    ∃ n, value = .int n :=
  (regular_complete a _ ((lookup_eq_some_iff_mem
    (nodup_complete a)).1 h)).int_of_notMem hkey

/-- All of a number can be told from a line. -/
theorem lookup_eq_of_line_eq
    (ha : line format (Record.ofEvent a) hidden = .ok text)
    (hb : line format (Record.ofEvent b) hidden = .ok text)
    {key : String} (hcolumn : key ∉ columns) (hkey : key ∉ textKeys) :
    (Record.ofEvent a).complete.lookup key
      = (Record.ofEvent b).complete.lookup key := by
  have hkept := ((line_unique ha hb).2 key hcolumn).1
  cases hvalue : (Record.ofEvent b).complete.lookup key with
  | none =>
      rw [hvalue] at hkept
      exact Option.map_eq_none_iff.1 hkept
  | some value =>
      obtain ⟨n, rfl⟩ := int_of_lookup_complete hkey hvalue
      rw [hvalue] at hkept
      obtain ⟨value', hvalue', hkept⟩ := Option.map_eq_some_iff.1 hkept
      rw [hvalue', eq_of_kept_eq_int hkept]

/-- Events whose lines are the same tell the same. -/
theorem tellsSame_of_line_eq
    (ha : line format (Record.ofEvent a) hidden = .ok text)
    (hb : line format (Record.ofEvent b) hidden = .ok text) :
    a.TellsSame format b := by
  have hfield : ∀ key ∉ columns, key ∉ textKeys → key ≠ lengthKey →
      key ≠ expressionKey → a.fields.lookup key = b.fields.lookup key := by
    intro key hcolumns htext hlength hexpression
    rw [← lookup_stamped a hcolumns, ← lookup_stamped b hcolumns,
      ← lookup_complete a hlength hexpression,
      ← lookup_complete b hlength hexpression]
    exact lookup_eq_of_line_eq ha hb hcolumns htext
  obtain ⟨hname, hlookup⟩ := line_unique ha hb
  obtain ⟨hunits, hexact⟩ := hlookup expressionKey (by decide)
  have hlength := lookup_eq_of_line_eq ha hb
    (show lengthKey ∉ columns by decide) (by decide)
  rw [lookup_complete_expression, lookup_complete_expression] at hunits hexact
  rw [lookup_complete_length, lookup_complete_length] at hlength
  have hexpression :
      Option.Rel (ShownAlike format) a.expression? b.expression? := by
    -- both events have an expression or none has, since something is found
    -- under its key or nothing is
    cases ha : a.expression? with
    | none =>
        cases hb : b.expression? with
        | none => exact .none
        | some text' => rw [ha, hb] at hunits; cases hunits
    | some text =>
        cases hb : b.expression? with
        | none => rw [ha, hb] at hunits; cases hunits
        | some text' =>
            rw [ha, hb] at hunits hexact hlength
            refine .some (shownAlike_of_lookups hlength ?_ fun hconsole => ?_)
            · exact Sum.inr.inj (Option.some.inj hunits)
            · exact Value.text.inj (Option.some.inj (hexact hconsole))
  exact {
    name := hname
    position := hfield _ (by decide) (by decide) (by decide) (by decide)
    requested := hfield _ (by decide) (by decide) (by decide) (by decide)
    maxDepth := hfield _ (by decide) (by decide) (by decide) (by decide)
    expression := hexpression }

/-- Events for debugging take a line each where debugging is shown, if they
have one. -/
theorem written_ofEvent (format : Format) (events : List (Event CodePoints))
    (hidden : Char → Bool) :
    Session.written (some ⟨.debug, format⟩) (events.map Record.ofEvent) hidden
      = events.filterMap fun event =>
          (line format (Record.ofEvent event) hidden).toOption := by
  have hgrave : (events.map Record.ofEvent).filter
      (fun record => Level.debug.rank ≤ record.level.rank)
        = events.map Record.ofEvent := by
    rw [List.filter_eq_self]
    intro record hrecord
    obtain ⟨event, -, rfl⟩ := List.mem_map.1 hrecord
    exact decide_eq_true (Nat.le_refl _)
  have hline : ∀ event, Log.written format (Record.ofEvent event) hidden
      = (line format (Record.ofEvent event) hidden).toOption.toList := by
    intro event
    unfold Log.written
    cases htext : line format (Record.ofEvent event) hidden with
    | error error => rfl
    | ok text => exact physicalLines_eq_singleton (notMem_line htext)
  dsimp only [Session.written]
  rw [hgrave, List.flatMap_map, List.filterMap_eq_flatMap_toList]
  exact congrArg (fun lines => events.flatMap lines) (funext hline)

end Log

/-- An event of a reading is about the text that is read, but for the one
that tells of a lowered depth. -/
theorem Expr.expression?_of_mem_events {τ : Type} [Script τ] {text : τ}
    {maxDepth : Int} {stack : Stack} {event : Event τ}
    (h : event ∈ (Expr.parse text maxDepth stack).events) :
    event.expression? = if event.name = "spdx_max_depth_lowered" then none
      else some text := by
  rw [parse_eq, List.mem_append, List.mem_singleton] at h
  rcases h with h | rfl
  · split at h
    case isTrue => rw [List.mem_singleton.1 h]; rfl
    case isFalse => cases h
  · have hends := ends_ending text maxDepth stack
      (outcome text maxDepth stack)
    generalize ending text maxDepth stack _ = ended at hends ⊢
    obtain ⟨event, result⟩ := ended
    cases hends <;> rfl

/-- Whatever a text holds, it cannot break a line, and it can pass for
another only in JSON and only through pairs of surrogates. Every event of a
reading of which all numbers can be written takes one physical line of its
own, and no other event takes any. Two events of any two readings whose
lines are the same have the same name and numbers, and if they are about
texts, these are shown alike (`Log.ShownAlike`). -/
theorem parse_lines_tell_events (format : Log.Format)
    (hidden : Char → Bool) :
    (∀ (text : CodePoints) maxDepth stack,
      let events := (Expr.parse text maxDepth stack).events
      let line := fun event =>
        Log.line format (Log.Record.ofEvent event) hidden
      Session.written (some ⟨.debug, format⟩)
          (events.map Log.Record.ofEvent) hidden
        = events.filterMap (fun event => (line event).toOption)
      ∧ ∀ event ∈ events,
        ((∃ written, line event = .ok written)
          ↔ Log.Writable (Log.Record.ofEvent event))
        ∧ ∀ written, line event = .ok written →
          CodePoint.ofChar '\n' ∉ written
          ∧ Log.physicalLines written = [written])
    ∧ ∀ (text : CodePoints) maxDepth stack (text' : CodePoints) maxDepth'
        stack',
      ∀ event ∈ (Expr.parse text maxDepth stack).events,
      ∀ event' ∈ (Expr.parse text' maxDepth' stack').events,
      ∀ written,
      Log.line format (Log.Record.ofEvent event) hidden = .ok written →
      Log.line format (Log.Record.ofEvent event') hidden = .ok written →
      event.TellsSame format event'
      ∧ (event.name ≠ "spdx_max_depth_lowered" →
        Log.ShownAlike format text text') := by
  constructor
  · intro text maxDepth stack events line
    refine ⟨Log.written_ofEvent format events hidden, fun event _ =>
      ⟨Log.line_eq_ok_iff, fun written hwritten => ?_⟩⟩
    have hfeed := Log.notMem_line hwritten
    exact ⟨hfeed, Log.physicalLines_eq_singleton hfeed⟩
  · intro text maxDepth stack text' maxDepth' stack' event hevent event'
      hevent' written hline hline'
    have hsame := Log.tellsSame_of_line_eq hline hline'
    refine ⟨hsame, fun hname => ?_⟩
    have hname' : event'.name ≠ "spdx_max_depth_lowered" :=
      hsame.name ▸ hname
    have halike := hsame.expression
    rw [Expr.expression?_of_mem_events hevent,
      Expr.expression?_of_mem_events hevent', if_neg hname,
      if_neg hname'] at halike
    cases halike with
    | some h => exact h

/-- A pair of surrogates and the code point that it stands for have the same
line in JSON, though one is two code points long and the other is one. And a
depth of more digits than a number is written in is lowered without a line
that says so. -/
theorem parse_lines_of_surrogates :
    let pair : CodePoints := [⟨0xD800, by decide⟩, ⟨0xDC00, by decide⟩]
    let single : CodePoints := [⟨0x10000, by decide⟩]
    let written := fun (text : CodePoints) (maxDepth : Int) =>
      Session.written (some ⟨.debug, .json⟩)
        ((Expr.parse text maxDepth).events.map Log.Record.ofEvent)
    (Expr.parse pair).events = [.parseFailed pair 0]
    ∧ (Expr.parse single).events = [.parseFailed single 0]
    ∧ (written pair 100).length = 1
    ∧ written pair 100 = written single 100
    ∧ pair.length ≠ single.length
    ∧ (Expr.parse single (Nat.pow 10 5000)).events
      = [.depthLowered (Nat.pow 10 5000) 200, .parseFailed single 0]
    ∧ written single (Nat.pow 10 5000) = written single 100 := by
  decide +kernel

end LicenseExpr
