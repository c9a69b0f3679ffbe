/-
The tables of a TOML document while it is read.

A document may come back to a table only in certain ways, so each table
remembers how it came about. A table that is only implied by the header of
one inside it may still get a header of its own; a table with a header may
not get a second one, and neither may one that dotted keys have made. A
list of tables grows at its end, and its last table is the one that later
headers lead into. What is given as a value, inline tables included, is
closed.
-/
import LicenseExpr.Value

namespace LicenseExpr.Toml

/-- How a table came about. -/
inductive Origin where
  /-- By the header of a table inside it. -/
  | implied
  /-- By its own header. -/
  | header
  /-- By dotted keys. -/
  | dotted
deriving DecidableEq

/-- What stands under a key: a value, an open table, or a list of tables of
which the last is open. -/
inductive Node where
  | leaf (value : Value)
  | table (origin : Origin) (entries : List (String × Node))
  | tables (before : List Node) (last : List (String × Node))

/-- The entries of an open table. -/
abbrev Entries : Type := List (String × Node)

/-- Changes what stands under a key, or adds it at the end. The change may
be refused. -/
def alter (key : String) (change : Option Node → Option Node) :
    Entries → Option Entries
  | [] => (change none).map fun node => [(key, node)]
  | (name, node) :: entries =>
      if name = key then
        (change (some node)).map fun node => (name, node) :: entries
      else (alter key change entries).map ((name, node) :: ·)

namespace Node

/-- What becomes of a node that a `[header]` names. -/
def withHeader : Option Node → Option Node
  | none => some (.table .header [])
  | some (.table .implied entries) => some (.table .header entries)
  | some _ => none

/-- What becomes of a node that a `[[header]]` names. -/
def withElement : Option Node → Option Node
  | none => some (.tables [] [])
  | some (.tables before last) =>
      some (.tables (before ++ [.table .header last]) [])
  | some _ => none

/-- Changes the entries that a header leads into when it passes a node. -/
def inside (change : Entries → Option Entries) : Option Node → Option Node
  | none => (change []).map (.table .implied)
  | some (.table origin entries) => (change entries).map (.table origin)
  | some (.tables before last) => (change last).map (.tables before)
  | some (.leaf _) => none

/-- Changes the entries that a dotted key leads into. -/
def dottedInside (change : Entries → Option Entries) :
    Option Node → Option Node
  | none => (change []).map (.table .dotted)
  | some (.table .header _) => none
  | some (.table _ entries) => (change entries).map (.table .dotted)
  | some (.tables _ _) => none
  | some (.leaf _) => none

mutual

/-- The value of a node in the finished document. -/
def toValue : Node → Value
  | .leaf value => value
  | .table _ entries => .table (entryValues entries)
  | .tables before last =>
      .list (values before ++ [.table (entryValues last)])

/-- The values of nodes, in order. -/
def values : List Node → List Value
  | [] => []
  | node :: nodes => node.toValue :: values nodes

/-- The values of entries, in order. -/
def entryValues : List (String × Node) → Table
  | [] => []
  | (key, node) :: entries => (key, node.toValue) :: entryValues entries

end

end Node

namespace Entries

/-- Opens the node that a header names. -/
def openHeader (change : Option Node → Option Node) :
    List String → Entries → Option Entries
  | [], _ => none
  | [key], entries => alter key change entries
  | key :: path, entries =>
      alter key (Node.inside (openHeader change path)) entries

/-- Puts a value under a key, which may be dotted and must be new. -/
def put (value : Value) : List String → Entries → Option Entries
  | [], _ => none
  | [key], entries =>
      alter key
        (fun node => if node.isNone then some (.leaf value) else none)
        entries
  | key :: path, entries =>
      alter key (Node.dottedInside (put value path)) entries

/-- Changes the table that the last header opened. -/
def within (change : Entries → Option Entries) :
    List String → Entries → Option Entries
  | [], entries => change entries
  | key :: path, entries =>
      alter key (Node.inside (within change path)) entries

/-- The table of finished entries. -/
def toTable (entries : Entries) : Table := Node.entryValues entries

end Entries

end LicenseExpr.Toml
