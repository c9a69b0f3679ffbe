/-
The operations of the library, each with its answer.

An operation is a value, so a sequence of them can be talked about. What it
answers depends on the operation and on the stack it runs on, and on nothing
else; the events on the way to the answer come with it. Texts in an answer
are shown with the characters of a class `hidden` escaped.
-/
import LicenseExpr.Log.Record
import LicenseExpr.Subject

namespace LicenseExpr

-- ======================================================== operations

/-- The parts of expression text that can be looked for on their own. -/
inductive Part where
  | idString
  | bareId
  | documentQualifier
  | reference
  | license
  | blanks
  | operator (word : String)

/-- What was found of a part. -/
inductive Found where
  | nothing
  | text (text : String)
  | reference (document : Option String) (id : String)
  | license (license : License)

/-- The recognizer of a part. -/
def Part.recognizer : Part → Recognizer Found
  | idString, cs => (Recognizer.idString cs).map (·.map .text id)
  | bareId, cs => (Recognizer.bareId cs).map (·.map .text id)
  | documentQualifier, cs =>
      (Recognizer.documentQualifier cs).map (·.map .text id)
  | reference, cs =>
      (Recognizer.reference cs).map
        (·.map (fun (document, id) => .reference document id) id)
  | license, cs => (Recognizer.license cs).map (·.map .license id)
  | blanks, cs => (Recognizer.blanks cs).map (·.map (fun _ => .nothing) id)
  | operator word, cs =>
      (Recognizer.operator word cs).map (·.map (fun _ => .nothing) id)

/-- Something that can be asked of the library. -/
inductive Operation where
  /-- Look for a part at an offset of a text. -/
  | find (part : Part) (text : String) (start : Nat)
  /-- Read a text as an expression. -/
  | parse (text : CodePoints) (maxDepth : Int)
  /-- Read a text as an expression in its facade, and look at it. -/
  | view (text : CodePoints) (maxDepth : Int)
  /-- List the licenses and exceptions of a subject. -/
  | licenses (subject : Subject)
  /-- Show a draft in every form. -/
  | inspect (draft : Draft Value)
  /-- Write an expression and read it again. -/
  | roundTrip (subject : Subject)
  /-- Compare two subjects. -/
  | compare (a b : Subject)
  /-- Tell how many different subjects there are. -/
  | distinguish (subjects : List Subject)
  /-- Tell the greatest depth that the stack allows. -/
  | depthLimit
  /-- Check a table of settings. -/
  | checkSettings (table : Table)
  /-- Load settings from a file. -/
  | loadSettings (file : SettingsFile)
  /-- Shorten the expression in the fields of a record. -/
  | shorten (fields : Table CodePoints)
  /-- Make an error. -/
  | makeError (kind : ErrorKind) (text : CodePoints) (position : Option Int)
  /-- List the constants of the library. -/
  | constants

/-- An expression that was written and read again, and whether it is still
the same. -/
structure Reread where
  tree : Expr
  sameTree : Bool
  sameText : Bool
  sameLicenses : Bool

/-- What comes of an operation that succeeds. -/
inductive Answer where
  | found (place : Option (Nat × Found))
  | parsed (tree : Expr) (text : String)
  | viewed (text literal : String) (licenses : List String)
      (sameAsParsed : Bool)
  | licenses (licenses : List String)
  | inspected (render display literal facade : Except Raised String)
      (licenses : Except Fault (List String))
  | roundTripped (text : String)
      (again : Except (ParseError CodePoints) Reread)
  | compared (equal sameHash : Bool)
  | distinguished (firstPlaces : List (Option Nat)) (count : Nat)
  | depthLimit (limit : Int)
  | settings (settings : Settings)
  | fields (fields : Table CodePoints)
  | error (view : ErrorView)
  | constants (defaultMaxDepth : Int) (maxLogged : Nat) (tableName : String)
      (defaults : Settings) (names : List String)

/-- The names that the library makes public. -/
def publicNames : List String :=
  ["And", "ConfigError", "DEFAULT_MAX_DEPTH", "Expression", "Or", "Parens",
    "ParseError", "SPDXExpression", "SimpleExpression",
    "SpdxExpressionError", "WithExpression", "licenses", "max_depth_limit",
    "parse", "render"]

-- =========================================================== answers

/-- Writes an expression and reads it again, once for the tree and once more
for its licenses. -/
def Expr.reread (stack : Stack) (expr : Expr) :
    Logged CodePoints (Except (ParseError CodePoints) Reread) := do
  let text := Text.points expr.render
  match ← Expr.parse text defaultMaxDepth stack with
  | .error error => return .error error
  | .ok again =>
      match ← Expr.parse text defaultMaxDepth stack with
      | .error error => return .error error
      | .ok listed =>
          return .ok
            { tree := again
              sameTree := again.shape == expr.shape
              sameText := again.render == expr.render
              sameLicenses := listed.licenses == expr.licenses }

namespace Operation

/-- Carries out an operation on a given stack. -/
def run (stack : Stack) (operation : Operation)
    (hidden : Char → Bool := Text.isHidden) :
    Logged CodePoints (Except Fault Answer) :=
  match operation with
  | find part text start =>
      return .ok (.found (part.recognizer.at text start))
  | parse text maxDepth =>
      return (← Expr.parse text maxDepth stack).map
        (fun expr => .parsed expr expr.render) |>.mapError .unreadable
  | view text maxDepth => do
      match ← Expr.parse text maxDepth stack with
      | .error error => return .error (.unreadable error)
      | .ok root =>
          return (← Expr.parse text maxDepth stack).map
            (fun parsed =>
              .viewed root.render (root.facadeLiteral hidden) root.licenses
                (root.shape == parsed.shape)) |>.mapError .unreadable
  | licenses subject =>
      return (← subject.expr stack).map
        (fun expr => .licenses expr.licenses) |>.mapError .unreadable
  | inspect draft => do
      let licenses ← (draft.findLicenses stack).mapTexts Text.points
      return .ok
        (.inspected (draft.rendered hidden) (draft.display hidden)
          (draft.literal hidden) (draft.facadeLiteral hidden) licenses)
  | roundTrip subject => do
      match ← subject.expr stack with
      | .error error => return .error (.unreadable error)
      | .ok expr =>
          return .ok (.roundTripped expr.render (← expr.reread stack))
  | compare a b => do
      match ← a.operand stack with
      | .error error => return .error (.unreadable error)
      | .ok a =>
          match ← b.operand stack with
          | .error error => return .error (.unreadable error)
          | .ok b => return .ok (.compared (a == b) (a.digest == b.digest))
  | distinguish subjects => do
      let (places, count) :=
        Operand.distinct (← Subject.operands stack subjects)
      return .ok (.distinguished places count)
  | depthLimit => return .ok (.depthLimit stack.depthLimit)
  | checkSettings table =>
      return (Settings.checked (Value.literal hidden) table stack).map
        .settings
  | loadSettings file => do
      let settings ← (Settings.loaded (Value.literal hidden) file
        stack).mapTexts Text.points
      return settings.map .settings
  | shorten fields => return .ok (.fields (Log.shorten fields))
  | makeError kind text position =>
      return (kind.view text position hidden).map .error |>.mapError .raised
  | constants =>
      return .ok
        (.constants defaultMaxDepth Log.maxLogged Settings.tableName {}
          publicNames)

end Operation

end LicenseExpr
