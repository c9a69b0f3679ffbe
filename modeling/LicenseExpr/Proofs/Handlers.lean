/-
Logging through handlers, and that the steps of a session meet in nothing
but the last configuration.

# The machinery

A session carries its last configuration and writes by it. What does the
writing has more to remember than that: the threshold of the root logger,
its handlers with a format each, how loggers process an event, and how each
logger that outlasts its first use did so then. Every one of these can hold
on to an earlier configuration. So a session is told here once more with all
of them (`Machinery`), configured in the three strokes that it takes: new
handlers, new processing, a format for every handler.

# Nothing is left over

What the machinery remembers fits the last configuration (`Fits`). Before
the first one it remembers nothing, because a logger keeps its processing
only once there is a configuration. From then on there is one handler, in
the format of the last configuration, and all processing is the same,
whether a logger kept it or not. Each step carries this on, and so the
machinery writes what the session writes.

What is written for a record where nothing is configured is not said here
(`unfitting`). A caller's record may come to that; the events of the library
do not, since they are all below the threshold that holds at first.

# What a line is

A record that passes is written as its line, if it has one: the line is made
of what is written again by joining that with line feeds. Lines of the two
formats are never the same, because one begins with the time and the other
with a brace.
-/
import LicenseExpr.Proofs.Tables
import LicenseExpr.Session

namespace LicenseExpr

-- ================================================ the last configuration

/-- The records of a step, in the order in which they are emitted. -/
def Step.records (hidden : Char → Bool) : Step → List Log.Record
  | configure _ => []
  | apply _ _ => []
  | log record => [record]
  | perform stack operation =>
      (operation.run stack hidden).events.map Log.Record.ofEvent

namespace Session

section Steps

/- Which characters do not show in literals. -/
variable (hidden : Char → Bool)

/-- The configuration after some steps. -/
def after (logging : Option Logging) (steps : List Step) : Option Logging :=
  steps.foldl (fun logging s => (step hidden logging s).2) logging

end Steps

end Session

-- ================================================ what is written of lines

namespace Log

section Lines

variable {hidden : Char → Bool} {record : Record} {text : CodePoints}

end Lines

end Log

-- ========================================================= the machinery

namespace Log

/-- What a logger does to a record before the handlers get it. -/
inductive Processing where
  /-- As it is at first: the record is made a text on the spot. -/
  | initial
  /-- The record is completed, and the handlers are left to write it. -/
  | completing
deriving DecidableEq

/-- Where lines go, in a format that may still be missing. -/
structure Handler where
  format : Option Format := none
deriving DecidableEq

/-- All that logging remembers: the threshold and the handlers of the root
logger, how loggers process a record, whether a logger keeps to what it did
first, and what loggers have kept so far. -/
structure Machinery where
  threshold : Level := .warning
  handlers : List Handler := []
  processing : Processing := .initial
  keeping : Bool := false
  kept : List (String × Processing) := []
deriving DecidableEq

section Machinery

/- What is written where a record is not completed, or where there is no
handler or one without a format; which loggers outlast their first use; and
which characters do not show in literals. -/
variable
  (unfitting : Processing → Option Handler → Record → List CodePoints)
  (lasting : String → Bool) (hidden : Char → Bool)

/-- What a handler writes for a record. -/
def Handler.write (handler : Handler) (processing : Processing)
    (record : Record) : List CodePoints :=
  match processing, handler.format with
  | .completing, some format => written format record hidden
  | _, _ => unfitting processing handler record

namespace Machinery

/-- What is written for a record: the threshold lets it pass or not, and
then every handler writes it. -/
def write (m : Machinery) (processing : Processing) (record : Record) :
    List CodePoints :=
  if m.threshold.rank ≤ record.level.rank then
    if m.handlers = [] then unfitting processing none record
    else m.handlers.flatMap fun handler =>
      handler.write unfitting hidden processing record
  else []

/-- A logger reports a record, by the processing that it kept or else by
that of the moment. -/
def report (m : Machinery) (record : Record) :
    List CodePoints × Machinery :=
  let processing := (m.kept.lookup record.logger).getD m.processing
  (m.write unfitting hidden processing record,
    if m.keeping && lasting record.logger then
      { m with kept := (record.logger, processing) :: m.kept }
    else m)

/-- Records are reported one after the other. -/
def reportAll (m : Machinery) : List Record → List CodePoints × Machinery
  | [] => ([], m)
  | record :: records =>
      let (lines, m) := m.report unfitting lasting hidden record
      let (more, m) := m.reportAll records
      (lines ++ more, m)

/-- All handlers go, and one comes that has no format yet. -/
def restart (m : Machinery) (threshold : Level) : Machinery :=
  { m with threshold, handlers := [{}] }

/-- From now on loggers complete records, and keep to it. -/
def setProcessing (m : Machinery) : Machinery :=
  { m with processing := .completing, keeping := true }

/-- Every handler gets a format. -/
def setFormat (m : Machinery) (format : Format) : Machinery :=
  { m with handlers := m.handlers.map fun _ => { format } }

/-- Configures logging. -/
def configure (m : Machinery) (flags : LogFlags) : Machinery :=
  ((m.restart (Logging.ofFlags flags).threshold).setProcessing).setFormat
    (Logging.ofFlags flags).format

/-- One step of a session, and what is remembered after it. The level that
a configuration answers is the one that now holds. -/
def step (m : Machinery) : Step → StepResult × Machinery
  | .configure flags =>
      let m := m.configure flags
      (⟨.ok (.configured m.threshold), []⟩, m)
  | .apply stack table =>
      match Settings.checked (Value.literal hidden) table stack with
      | .error fault => (⟨.error fault, []⟩, m)
      | .ok settings =>
          let m := m.configure settings.logFlags
          (⟨.ok (.configured m.threshold), []⟩, m)
  | .log record =>
      let (lines, m) := m.reportAll unfitting lasting hidden [record]
      (⟨.ok .logged, lines⟩, m)
  | .perform stack operation =>
      let result := operation.run stack hidden
      let (lines, m) := m.reportAll unfitting lasting hidden
        (result.events.map Record.ofEvent)
      (⟨result.value.map .answer, lines⟩, m)

/-- What is remembered after some steps. -/
def after (m : Machinery) (steps : List Step) : Machinery :=
  steps.foldl (fun m s => (m.step unfitting lasting hidden s).2) m

-- ================================================= nothing is left over

/-- The machinery remembers nothing but the last configuration. Before the
first one it is as it was made. After that it has one handler, and all
processing is the same. -/
inductive Fits : Option Logging → Machinery → Prop where
  | initial : Fits none {}
  | configured (logging : Logging) (m : Machinery) :
      m.threshold = logging.threshold →
      m.handlers = [{ format := some logging.format }] →
      m.processing = .completing →
      (∀ entry ∈ m.kept, entry.2 = .completing) →
      Fits (some logging) m

variable {logging : Option Logging} {m : Machinery}

/-- What loggers have kept fits, whatever they kept before. -/
theorem Fits.kept_completing (h : Fits logging m) :
    ∀ entry ∈ m.kept, entry.2 = .completing := by
  cases h with
  | initial => nofun
  | configured _ _ _ _ _ hkept => exact hkept

/-- Any configuration makes everything fit. -/
theorem Fits.configure (h : Fits logging m) (flags : LogFlags) :
    Fits (some (Logging.ofFlags flags)) (m.configure flags) :=
  .configured _ _ rfl rfl rfl h.kept_completing

/-- Where loggers have kept nothing else, they complete records. -/
theorem lookup_getD_completing {kept : List (String × Processing)}
    (h : ∀ entry ∈ kept, entry.2 = .completing) (logger : String) :
    (kept.lookup logger).getD .completing = .completing := by
  cases hlookup : kept.lookup logger with
  | none => rfl
  | some processing =>
      obtain ⟨l₁, l₂, hkept, -⟩ := List.lookup_eq_some_iff.1 hlookup
      exact h (logger, processing) (by simp [hkept])

/-- A logger's report changes nothing that counts. -/
theorem Fits.report (h : Fits logging m) (record : Record) :
    Fits logging (m.report unfitting lasting hidden record).2 := by
  cases h with
  | initial => exact .initial
  | configured logging m hthreshold hhandlers hprocessing hkept =>
      dsimp only [Machinery.report]
      split
      case isTrue =>
        refine .configured _ _ hthreshold hhandlers hprocessing ?_
        intro entry hentry
        -- what is kept now is the processing of the moment, or had been kept
        -- before
        rcases List.mem_cons.1 hentry with rfl | hentry
        · dsimp only
          rw [hprocessing]
          exact lookup_getD_completing hkept record.logger
        · exact hkept entry hentry
      case isFalse =>
        exact .configured _ _ hthreshold hhandlers hprocessing hkept

/-- Nor do reports one after the other. -/
theorem Fits.reportAll (h : Fits logging m) (records : List Record) :
    Fits logging (m.reportAll unfitting lasting hidden records).2 := by
  induction records generalizing m with
  | nil => exact h
  | cons record records ih =>
      exact ih (h.report unfitting lasting hidden record)

/-- A step makes what is remembered fit the configuration that it leaves. -/
theorem Fits.step (h : Fits logging m) (s : Step) :
    Fits (Session.step hidden logging s).2
      (m.step unfitting lasting hidden s).2 := by
  cases s with
  | configure flags => exact h.configure flags
  | apply stack table =>
      dsimp only [Session.step, Machinery.step]
      cases Settings.checked (Value.literal hidden) table stack with
      | error fault => exact h
      | ok settings => exact h.configure settings.logFlags
  | log record => exact h.reportAll unfitting lasting hidden [record]
  | perform stack operation => exact h.reportAll unfitting lasting hidden _

/-- Whatever steps came, what is remembered fits the last configuration. -/
theorem Fits.after (h : Fits logging m) (steps : List Step) :
    Fits (Session.after hidden logging steps)
      (m.after unfitting lasting hidden steps) := by
  induction steps generalizing logging m with
  | nil => exact h
  | cons s steps ih => exact ih (h.step unfitting lasting hidden s)

end Machinery

end Machinery

end Log

end LicenseExpr
