/-
Settings kept in a file.

A settings file is a TOML document in UTF-8 in which the table of tools may
hold a table of settings for this library. No file, no table of tools and no
table of settings all mean the defaults. Loading can fail at each step: the
system may not let the file be looked for or read, the bytes may be no text,
the text no document, the tools no table, the settings no table, and the
table may be refused.
-/
import LicenseExpr.Log.Event
import LicenseExpr.Settings
import LicenseExpr.Text.Lines
import LicenseExpr.Text.Utf8
import LicenseExpr.Toml.Document

namespace LicenseExpr

/-- Why settings could not be loaded. -/
inductive LoadFault where
  /-- The system refused to look for the file or to read it. -/
  | system (error : Raised)
  | undecodable (fault : Text.Utf8.Fault)
  | malformed
  /-- In place of the table of tools stands another value. -/
  | toolsNotATable (value : Value)
  | settings (fault : SettingsFault)

/-- Where settings are looked for. -/
inductive SettingsFile where
  /-- No file is at this path. -/
  | missing (path : String)
  /-- The system does not say whether there is a file, or what is in it. -/
  | unreachable (error : Raised)
  | content (bytes : List UInt8)

/-- A relative path without empty components and without those that stay
where they are. -/
def normalPath (path : String) : String :=
  let parts := (path.splitOn "/").filter fun part => part != "" && part != "."
  if parts = [] then "." else "/".intercalate parts

namespace Settings

/-- The settings that a document gives. -/
def ofDocument (document : Table) (stack : Stack := {}) :
    Except LoadFault Settings :=
  match document.lookup "tool" with
  | none => .ok {}
  | some (.table tools) =>
      match tools.lookup tableName with
      | none => .ok {}
      | some (.table table) =>
          (ofTable table stack).mapError .settings
      | some _ => .error (.settings .notATable)
  | some value => .error (.toolsNotATable value)

/-- The settings that the bytes of a file give. -/
def ofBytes (bytes : List UInt8) (stack : Stack := {}) :
    Except LoadFault Settings := do
  let text ← (Text.Utf8.decode bytes).mapError .undecodable
  match Toml.document? (Text.unixLines text.toList) with
  | none => throw .malformed
  | some document => ofDocument document stack

/-- Loads settings. That a file is missing is reported. -/
def load (file : SettingsFile) (stack : Stack := {}) :
    Logged String (Except LoadFault Settings) :=
  match file with
  | .missing path => do
      Logged.report (.settingsNotFound (normalPath path))
      return .ok {}
  | .unreachable error => return .error (.system error)
  | .content bytes => return ofBytes bytes stack

end Settings

end LicenseExpr
