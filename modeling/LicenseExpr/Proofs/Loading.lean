/-
Loading settings: when the defaults hold, and what a loading can fail with.

A document has a place for the table of settings, in the table of tools
(`placed?`). There may be nothing in that place, and then the defaults hold
as they do without a file. An empty table there is another matter: it is
checked, and the default depth with it.

Everything that a document can have in that place is either taken as
settings or refused as such. Only above the place something can go wrong
that is no fault of the settings: where the system does not let the file be
looked for, or where a value that is no table stands for the table of tools.
And a message about the settings may fail to be made, as for any table.
-/
import LicenseExpr.Proofs.Complaints

namespace LicenseExpr

namespace Settings

-- =============================================== the place for settings

/-- What a document has in the place of the table of settings. -/
def placed? (document : Table) : Option Value :=
  match document.lookup "tool" with
  | some (.table tools) => tools.lookup tableName
  | _ => none

/-- If anything stands for the table of tools, then it is a table. -/
def ToolsFit (document : Table) : Prop :=
  ∀ value, document.lookup "tool" = some value →
    ∃ tools, value = .table tools

/-- The bytes are UTF-8, and their text is a document. -/
def Holds (bytes : List UInt8) (document : Table) : Prop :=
  ∃ text, Text.Utf8.decode bytes = .ok text
    ∧ Toml.document? (Text.unixLines text.toList) = some document

variable {document : Table} {stack : Stack} {bytes : List UInt8}

/-- Loading a document is reading its settings. -/
theorem load_content (h : Holds bytes document) (stack : Stack) :
    (load (.content bytes) stack).value = ofDocument document stack := by
  obtain ⟨text, htext, hdocument⟩ := h
  show ofBytes bytes stack = _
  unfold ofBytes
  rw [htext]
  dsimp only [Except.mapError, bind, Except.bind]
  rw [hdocument]

/-- Where the tools fit, all depends on what is in the place of the
settings. -/
theorem ofDocument_eq (h : ToolsFit document) :
    ofDocument document stack
      = match placed? document with
        | none => .ok {}
        | some (.table table) => (ofTable table stack).mapError .settings
        | some _ => .error (.settings .notATable) := by
  unfold ofDocument placed?
  -- no tools, no settings
  cases htools : document.lookup "tool" with
  | none => rfl
  | some value =>
      obtain ⟨tools, rfl⟩ := h value htools
      rfl

/-- Where they do not, the value is refused as what it is. -/
theorem ofDocument_of_not_toolsFit {value : Value}
    (hlookup : document.lookup "tool" = some value)
    (h : ∀ tools, value ≠ .table tools) :
    ofDocument document stack = .error (.toolsNotATable value) := by
  unfold ofDocument
  rw [hlookup]
  cases value with
  | table tools => exact absurd rfl (h tools)
  | _ => rfl

-- ===================================================== optional settings

/-- An empty table is refused where the default depth is above the limit,
and gives the defaults elsewhere. -/
theorem ofTable_nil (stack : Stack) :
    ofTable [] stack
      = if stack.depthLimit < defaultMaxDepth then
          .error (.depthAboveLimit stack.depthLimit defaultMaxDepth)
        else .ok {} := by
  have hkeys : KnownKeys [] := nofun
  have hnone : List.lookup maxDepthKey ([] : Table) = none := rfl
  have hdepth := checkDepth_of_none hnone stack
  split
  case isTrue habove =>
    rw [if_pos habove] at hdepth
    exact ofTable_eq_error hkeys hdepth
  case isFalse hwithin =>
    rw [if_neg hwithin] at hdepth
    exact ofTable_eq_ok_iff.2 ⟨hkeys, hdepth, rfl, rfl, rfl⟩

/-- The flags are optional, and the depth is where the default depth is
within the limit of the stack. There, taking entries out of a table that
gives settings puts the defaults in their place, and no file, no table and
an empty table all give the defaults. Where it is not, no file and no table
still do; but an empty table and every part without a depth are refused for
the default depth. -/
theorem settings_optional (stack : Stack) :
    (∀ table part settings, (table.map Prod.fst).Nodup →
      part.Sublist table → ofTable table stack = .ok settings →
      ofTable part stack
        = if part.lookup maxDepthKey = none
              ∧ stack.depthLimit < defaultMaxDepth then
            .error (.depthAboveLimit stack.depthLimit defaultMaxDepth)
          else .ok (settings.keep fun key => (part.lookup key).isSome))
    ∧ (∀ path, (load (.missing path) stack).value = .ok {})
    ∧ ∀ bytes document, Holds bytes document → ToolsFit document →
      (placed? document = none →
        (load (.content bytes) stack).value = .ok {})
      ∧ (placed? document = some (.table []) →
        (load (.content bytes) stack).value
          = if stack.depthLimit < defaultMaxDepth then
              .error (.settings
                (.depthAboveLimit stack.depthLimit defaultMaxDepth))
            else .ok {}) := by
  refine ⟨fun _ _ _ h hpart hok => ofTable_part h hpart hok,
    fun _ => rfl, ?_⟩
  intro bytes document hholds hfit
  rw [load_content hholds, ofDocument_eq hfit]
  constructor
  · intro hplaced
    rw [hplaced]
  · intro hplaced
    rw [hplaced]
    dsimp only
    rw [ofTable_nil]
    split <;> rfl

/-- With five hundred frames the limit is 75. Taking a depth of 50 out of a
table leaves an empty table, which is refused for the default depth, while a
missing file gives that depth. -/
theorem settings_not_optional :
    ofTable [(maxDepthKey, .int 50)] { frames := 500 }
        = .ok { maxDepth := 50 }
    ∧ ofTable [] { frames := 500 } = .error (.depthAboveLimit 75 100)
    ∧ (load (.missing "settings.toml") { frames := 500 }).value
        = .ok { maxDepth := 100 } :=
  ⟨rfl, rfl, rfl⟩

end Settings

-- ================================================= a document in one line

namespace Toml

/-- A line that is read is added, and then the lines behind it are read. -/
theorem readLines_of_wholeLine {progress next : Progress}
    {cs rest : List Char} {line : Line}
    (hahead : skipTrivia false cs = some cs)
    (hline : wholeLine cs = some (line, rest))
    (hshort : rest.length < cs.length)
    (hadd : progress.add? line = some next) :
    readLines progress cs = readLines next rest := by
  have hstrictly : strictly wholeLine cs = some (line, ⟨rest, hshort⟩) := by
    unfold strictly
    rw [hline]
    exact dif_pos hshort
  rw [readLines]
  split
  case h_1 hnone => rw [hahead] at hnone; cases hnone
  case h_2 hnil =>
    rw [hahead] at hnil
    cases hnil
    exact absurd hshort (Nat.not_lt_zero _)
  case h_3 ahead _ hsome =>
    rw [hahead] at hsome
    cases hsome
    simp only [hstrictly, hadd]

/-- A line that says that the tools are a number. -/
theorem line_number :
    line "tool = 1".toList = some (.entry ["tool"] (.int 1), []) := by
  have hkey : keyPath (skipSpaces "tool = 1".toList)
      = some (["tool"], "= 1".toList) := by
    unfold keyPath
    rfl
  have hvalue : value "1".toList = some (.int 1, ⟨[], by decide⟩) := by
    unfold value
    rfl
  have hassignment : assignment "tool = 1".toList
      = some (["tool"], "1".toList) := by
    unfold assignment
    rw [hkey]
    rfl
  show (assignment "tool = 1".toList).bind _ = _
  rw [hassignment]
  show (value "1".toList).bind _ = _
  rw [hvalue]
  rfl

/-- A document of this line alone. -/
theorem document?_number :
    document? "tool = 1".toList = some [("tool", .int 1)] := by
  have hwhole : wholeLine "tool = 1".toList
      = some (.entry ["tool"] (.int 1), []) := by
    unfold wholeLine
    rw [line_number]
    rfl
  unfold document?
  rw [readLines_of_wholeLine rfl hwhole (by decide) rfl]
  unfold readLines
  rfl

end Toml

-- ======================================================= loading faults

namespace Settings

variable {literal : Value → Except Raised String} {document : Table}
  {stack : Stack} {bytes : List UInt8}

/-- What comes of loading a document. -/
theorem loaded_content (h : Holds bytes document) (stack : Stack) :
    (loaded literal (.content bytes) stack).value
      = (ofDocument document stack).mapError (Fault.ofLoading literal) := by
  rw [← load_content h stack]
  rfl

/-- Where the tools fit, loading a document is checking what it has in the
place of the settings. -/
theorem loaded_eq (h : Holds bytes document) (hfit : ToolsFit document) :
    (loaded literal (.content bytes) stack).value
      = match placed? document with
        | none => .ok {}
        | some (.table table) => checked literal table stack
        | some _ =>
            .error (.settings "[tool.spdx-expression] must be a table") := by
  rw [loaded_content h, ofDocument_eq hfit]
  split
  case h_1 => rfl
  case h_2 table hplaced =>
    unfold checked
    cases ofTable table stack <;> rfl
  case h_3 => rfl

/-- A value for the tools that is no table is asked for a member. -/
theorem loaded_of_not_toolsFit {value : Value} (h : Holds bytes document)
    (hlookup : document.lookup "tool" = some value)
    (hvalue : ∀ tools, value ≠ .table tools) :
    (loaded literal (.content bytes) stack).value
      = .error (.raised (.noMember value.typeName "get")) := by
  rw [loaded_content h, ofDocument_of_not_toolsFit hlookup hvalue]
  rfl

/-- The settings give a table or are none, or there is a message about
them. -/
def Sayable (literal : Value → Except Raised String) (document : Table)
    (stack : Stack) : Prop :=
  ∀ table fault, placed? document = some (.table table) →
    ofTable table stack = .error fault →
    ∃ message, fault.message literal = .ok message

/-- Where the tools fit and there is a message about settings that are
refused, loading gives settings or says what is wrong with them. -/
theorem loaded_of_sayable (h : Holds bytes document)
    (hfit : ToolsFit document) (hsayable : Sayable literal document stack) :
    (∃ settings, (loaded literal (.content bytes) stack).value = .ok settings)
      ∨ ∃ message, (loaded literal (.content bytes) stack).value
          = .error (.settings message) := by
  rw [loaded_eq h hfit]
  split
  case h_1 => exact .inl ⟨_, rfl⟩
  case h_2 table hplaced =>
    cases hresult : ofTable table stack with
    | ok settings => exact .inl ⟨settings, checked_eq_ok_iff.2 hresult⟩
    | error fault =>
        obtain ⟨message, hmessage⟩ := hsayable table fault hplaced hresult
        exact .inr ⟨message, checked_of_first hresult hmessage⟩
  case h_3 => exact .inr ⟨_, rfl⟩

/-- Where there is no message about settings that are refused, what came up
on the way to the message is the error. -/
theorem loaded_of_unsaid (h : Holds bytes document)
    (hfit : ToolsFit document) {table : Table} {fault : SettingsFault}
    {raised : Raised} (hplaced : placed? document = some (.table table))
    (hresult : ofTable table stack = .error fault)
    (hraised : fault.message literal = .error raised) :
    (loaded literal (.content bytes) stack).value
      = .error (.raised raised) := by
  rw [loaded_eq h hfit, hplaced]
  exact checked_of_unsaid hresult hraised

end Settings

/-- Without a file loading gives the defaults, and what the system says
against looking for one is passed on. A document gives settings, or is
refused for its settings, exactly if no value but a table stands for the
table of tools and there is a message about the settings if they are
refused. Any other value for the tools is asked for a member that it does not
have; and where a message about the settings cannot be made, what came up is
passed on. -/
theorem load_outcomes (literal : Value → Except Raised String)
    (stack : Stack) :
    (∀ path, (Settings.loaded literal (.missing path) stack).value = .ok {})
    ∧ (∀ error, (Settings.loaded literal (.unreachable error) stack).value
      = .error (.raised error))
    ∧ ∀ bytes document, Settings.Holds bytes document →
      let result := (Settings.loaded literal (.content bytes) stack).value
      ((∃ settings, result = .ok settings)
          ∨ (∃ message, result = .error (.settings message))
        ↔ Settings.ToolsFit document
          ∧ Settings.Sayable literal document stack)
      ∧ (∀ value, document.lookup "tool" = some value →
        (∀ tools, value ≠ .table tools) →
        result = .error (.raised (.noMember value.typeName "get")))
      ∧ ∀ table fault raised, Settings.ToolsFit document →
        Settings.placed? document = some (.table table) →
        Settings.ofTable table stack = .error fault →
        fault.message literal = .error raised →
        result = .error (.raised raised) := by
  refine ⟨fun _ => rfl, fun _ => rfl, ?_⟩
  intro bytes document hholds result
  have htools : ∀ value, document.lookup "tool" = some value →
      (∀ tools, value ≠ .table tools) →
      result = .error (.raised (.noMember value.typeName "get")) :=
    fun value => Settings.loaded_of_not_toolsFit hholds
  have hunsaid : ∀ table fault raised, Settings.ToolsFit document →
      Settings.placed? document = some (.table table) →
      Settings.ofTable table stack = .error fault →
      fault.message literal = .error raised →
      result = .error (.raised raised) :=
    fun _ _ _ hfit => Settings.loaded_of_unsaid hholds hfit
  refine ⟨⟨fun hsaid => ?_, fun h =>
    Settings.loaded_of_sayable hholds h.1 h.2⟩, htools, hunsaid⟩
  -- Anything that is passed on is neither settings nor said against them.
  have hpassed : ∀ raised, result ≠ .error (.raised raised) := by
    intro raised hraised
    rcases hsaid with ⟨settings, hok⟩ | ⟨message, hmessage⟩
    · cases hraised.symm.trans hok
    · cases hraised.symm.trans hmessage
  have hfit : Settings.ToolsFit document := by
    intro value hlookup
    by_cases hvalue : ∃ tools, value = .table tools
    · exact hvalue
    · exact absurd (htools value hlookup fun tools htable =>
        hvalue ⟨tools, htable⟩) (hpassed _)
  refine ⟨hfit, fun table fault hplaced hresult => ?_⟩
  cases hmessage : fault.message literal with
  | ok message => exact ⟨message, rfl⟩
  | error raised =>
      exact absurd (hunsaid table fault raised hfit hplaced hresult hmessage)
        (hpassed raised)

/-- A document that says no more than that the tools are a number is refused
neither as settings nor as a document. -/
theorem load_number_for_tools :
    (Settings.loaded (Value.literal Text.isHidden)
        (.content "tool = 1".toUTF8.data.toList) {}).value
      = .error (.raised
        ⟨"AttributeError", "'int' object has no attribute 'get'"⟩) := by
  have hholds : Settings.Holds "tool = 1".toUTF8.data.toList
      [("tool", .int 1)] := ⟨"tool = 1", rfl, Toml.document?_number⟩
  exact Settings.loaded_of_not_toolsFit hholds rfl nofun

end LicenseExpr
