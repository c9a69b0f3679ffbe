/-
Log records: an event with its data, on its way to being written.

A record is completed to a table: its own fields first, then what happened,
how grave it is, who reports it and when. A field that is already there
keeps its place and takes the new value. The text of a long expression is
shortened, and its full length goes with it.

What is logged is any text, so the texts in the fields of a record may hold
surrogates.
-/
import LicenseExpr.Log.Event
import LicenseExpr.Value

namespace LicenseExpr

namespace Table

variable {τ : Type}

/-- Puts a value under a key, in place if the key is there, else at the
end. -/
def put (key : String) (value : Value τ) : Table τ → Table τ
  | [] => [(key, value)]
  | (name, old) :: entries =>
      if name = key then (name, value) :: entries
      else (name, old) :: put key value entries

/-- A table of entries that were given one by one. -/
def ofEntries (entries : List (String × Value τ)) : Table τ :=
  entries.foldl (fun table (key, value) => put key value table) []

end Table

namespace Log

/-- How grave an event is. -/
inductive Level where
  | debug
  | info
  | warning
  | error
  | critical
deriving DecidableEq

namespace Level

/-- Graver levels have higher ranks. -/
def rank : Level → Nat
  | debug => 10
  | info => 20
  | warning => 30
  | error => 40
  | critical => 50

/-- The name of a level in lines. -/
def name : Level → String
  | debug => "debug"
  | info => "info"
  | warning => "warning"
  | error => "error"
  | critical => "critical"

end Level

/-- An event with its data, and who reports it. -/
structure Record where
  level : Level
  logger : String
  event : String
  fields : List (String × Value CodePoints)

/-- The name of a logger in lines. The logger above all others is the one
whose name is empty. -/
def loggerLabel (logger : String) : String :=
  if logger = "" then "root" else logger

/-- The logger that reports where none is named. -/
def defaultLogger : String := "spdx_expression"

/-- The record of an event of the library. -/
def Record.ofEvent (event : Event CodePoints) : Record :=
  ⟨.debug, event.logger, event.name, event.fields⟩

-- ====================================================== shortening

/-- The greatest number of code points of an expression that is logged. -/
def maxLogged : Nat := 200

def expressionKey : String := "expression"
def lengthKey : String := "expression_length"

/-- Cuts the text of an expression that is too long, marks the cut, and adds
the length that the text had. -/
def shorten (fields : Table CodePoints) : Table CodePoints :=
  match fields.lookup expressionKey with
  | some (.text text) =>
      if maxLogged < text.length then
        let cut := text.take maxLogged ++ Text.points "..."
        Table.put lengthKey (.int text.length)
          (Table.put expressionKey (.text cut) fields)
      else fields
  | _ => fields

-- ====================================================== completion

def eventKey : String := "event"
def levelKey : String := "level"
def loggerKey : String := "logger"
def timestampKey : String := "timestamp"

/-- Stands for the time at which a record was written. -/
def timestamp : String := "T"

/-- All that is written for a record, in order. -/
def Record.complete (record : Record) : Table CodePoints :=
  shorten
    (Table.put timestampKey (.text (Text.points timestamp))
      (Table.put loggerKey
        (.text (Text.points (loggerLabel record.logger)))
        (Table.put levelKey (.text (Text.points record.level.name))
          (Table.put eventKey (.text (Text.points record.event))
            (Table.ofEntries record.fields)))))

end Log

end LicenseExpr
