/-
Sessions: operations and log calls one after the other, under a logging
configuration that the steps may change.

A session starts without a configuration, and then nothing is written. A
configuration fixes how grave an event must be to be written, and in which
format. Operations cannot see it and cannot change it: a step's answer is
that of the operation alone, and its log is the lines of those of its
events that are grave enough. An event of which there is no line writes
nothing.
-/
import LicenseExpr.Log.Line
import LicenseExpr.Operation

namespace LicenseExpr

/-- What a configuration of logging is made from. -/
structure LogFlags where
  verbose : Bool := false
  quiet : Bool := false
  jsonLog : Bool := false
deriving DecidableEq

/-- How grave an event must be to be written, and how it is written. -/
structure Logging where
  threshold : Log.Level
  format : Log.Format
deriving DecidableEq

/-- Quiet logging begins at warnings, verbose logging shows everything, and
quiet wins over verbose. -/
def Logging.ofFlags (flags : LogFlags) : Logging where
  threshold :=
    if flags.quiet then .warning else if flags.verbose then .debug else .info
  format := if flags.jsonLog then .json else .console

/-- The flags among the settings. -/
def Settings.logFlags (settings : Settings) : LogFlags :=
  ⟨settings.verbose, settings.quiet, settings.jsonLog⟩

/-- One step of a session. -/
inductive Step where
  /-- Configure logging. -/
  | configure (flags : LogFlags)
  /-- Configure logging as a table of settings says. -/
  | apply (stack : Stack) (table : Table)
  /-- Log a record. -/
  | log (record : Log.Record)
  /-- Carry out an operation. -/
  | perform (stack : Stack) (operation : Operation)

/-- What comes of a step that succeeds. -/
inductive StepAnswer where
  /-- Logging was configured, and begins at this level. -/
  | configured (threshold : Log.Level)
  | logged
  | answer (answer : Answer)

/-- A step that is over: its answer, and the lines it has written. -/
structure StepResult where
  answer : Except Fault StepAnswer
  lines : List CodePoints

namespace Session

/-- What is written for records under a configuration. -/
def written (logging : Option Logging) (records : List Log.Record)
    (hidden : Char → Bool := Text.isHidden) : List CodePoints :=
  match logging with
  | none => []
  | some logging =>
      (records.filter fun record =>
          logging.threshold.rank ≤ record.level.rank).flatMap
        fun record => Log.written logging.format record hidden

section Steps

/- Which characters do not show in literals. -/
variable (hidden : Char → Bool)

/-- One step of a session, and the configuration after it. -/
def step (logging : Option Logging) : Step → StepResult × Option Logging
  | .configure flags =>
      let logging := Logging.ofFlags flags
      (⟨.ok (.configured logging.threshold), []⟩, some logging)
  | .apply stack table =>
      match Settings.checked (Value.literal hidden) table stack with
      | .error fault => (⟨.error fault, []⟩, logging)
      | .ok settings =>
          let logging := Logging.ofFlags settings.logFlags
          (⟨.ok (.configured logging.threshold), []⟩, some logging)
  | .log record => (⟨.ok .logged, written logging [record] hidden⟩, logging)
  | .perform stack operation =>
      let result := operation.run stack hidden
      (⟨result.value.map .answer,
          written logging (result.events.map Log.Record.ofEvent) hidden⟩,
        logging)

/-- The results of steps that begin under a given configuration. -/
def runFrom (logging : Option Logging) : List Step → List StepResult
  | [] => []
  | s :: steps =>
      let (result, logging) := step hidden logging s
      result :: runFrom logging steps

end Steps

/-- The results of the steps of a session. -/
def run (steps : List Step) (hidden : Char → Bool := Text.isHidden) :
    List StepResult :=
  runFrom hidden none steps

end Session

end LicenseExpr
