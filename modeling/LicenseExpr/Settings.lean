/-
The settings of the library, and how they are checked.

A table of settings may leave out any of its keys, and holds no others. The
checks have a fixed order, so that a table with several faults is always
refused for the same one: keys that are not known, all of them at once; a
depth that is no positive integer; a depth above what the stack allows;
then the flags, one by one. The default depth is checked like any other.

What is said about a table shows the value that is wrong. There may be no
text for that value, and then the message cannot be made.
-/
import LicenseExpr.Nesting
import LicenseExpr.Text.Ascending
import LicenseExpr.Value

namespace LicenseExpr

/-- How deep expressions may be nested, and what is logged in which form. -/
structure Settings where
  maxDepth : Int := defaultMaxDepth
  verbose : Bool := false
  quiet : Bool := false
  jsonLog : Bool := false
deriving DecidableEq

/-- Why a table is refused. -/
inductive SettingsFault where
  | unknownKeys (keys : List String)
  | depthNotPositive (value : Value)
  | depthAboveLimit (limit maxDepth : Int)
  | flagNotTruthValue (key : String) (value : Value)
  /-- Where the table should be is something else. -/
  | notATable

namespace Settings

/-- The name of the table among the tables of tools. -/
def tableName : String := "spdx-expression"

def maxDepthKey : String := "max-depth"
def verboseKey : String := "verbose"
def quietKey : String := "quiet"
def jsonLogKey : String := "json-log"

/-- All the keys that a table may have. -/
def keys : List String := [maxDepthKey, verboseKey, quietKey, jsonLogKey]

/-- The depth in a table, which must be a positive integer within the
limit. -/
def checkDepth (table : Table) (stack : Stack) : Except SettingsFault Int :=
  match (table.lookup maxDepthKey).getD (.int defaultMaxDepth) with
  | .int maxDepth =>
      if maxDepth ≤ 0 then .error (.depthNotPositive (.int maxDepth))
      else if stack.depthLimit < maxDepth then
        .error (.depthAboveLimit stack.depthLimit maxDepth)
      else .ok maxDepth
  | value => .error (.depthNotPositive value)

/-- A flag in a table. -/
def checkFlag (table : Table) (key : String) : Except SettingsFault Bool :=
  match (table.lookup key).getD (.bool false) with
  | .bool flag => .ok flag
  | value => .error (.flagNotTruthValue key value)

/-- The settings that a table gives, under the limit of a stack. -/
def ofTable (table : Table) (stack : Stack := {}) :
    Except SettingsFault Settings := do
  let unknown := (table.map Prod.fst).filter fun key => !keys.contains key
  unless unknown = [] do
    throw (.unknownKeys (Text.ascending unknown))
  let maxDepth ← checkDepth table stack
  let verbose ← checkFlag table verboseKey
  let quiet ← checkFlag table quietKey
  let jsonLog ← checkFlag table jsonLogKey
  return { maxDepth, verbose, quiet, jsonLog }

end Settings

namespace SettingsFault

/-- The table's name in messages. -/
def heading : String := "[tool." ++ Settings.tableName ++ "]"

/-- What is said about a table that is refused, where `literal` shows
values; or what comes up when a value is shown. -/
def message (literal : Value → Except Raised String) :
    SettingsFault → Except Raised String
  | unknownKeys keys =>
      .ok ("Unknown key(s) in " ++ heading ++ ": " ++ ", ".intercalate keys)
  | depthNotPositive value =>
      return Settings.maxDepthKey ++ " must be a positive integer, got "
        ++ (← literal value)
  | depthAboveLimit limit maxDepth =>
      return Settings.maxDepthKey ++ " must be at most "
        ++ (← Text.decimal limit) ++ " for the current recursion limit, got "
        ++ (← Text.decimal maxDepth)
  | flagNotTruthValue key value =>
      return key ++ " must be a boolean, got " ++ (← literal value)
  | notATable => .ok (heading ++ " must be a table")

end SettingsFault

end LicenseExpr
