/-
A single license, as an expression names it, and the text it is written in.

A license is named in one of two ways. A bare id, such as `GPL-2.0+`, names
a license of a public list; a reference, such as `LicenseRef-House` or
`DocumentRef-spec:LicenseRef-House`, names one whose text is kept in the
document at hand or in another one. The type holds both and does not insist
that the id be made of identifier characters, because licenses are also put
together by hand.
-/

namespace LicenseExpr

/-- A license as it is named: its id without any mark, the document a
reference points into, and whether it is a reference. -/
structure License where
  id : String
  document : Option String := none
  isReference : Bool := false
deriving DecidableEq, Hashable

/-- The mark in front of the id of a document. -/
def documentMark : String := "DocumentRef-"

/-- The mark in front of the id of a license that is a reference. -/
def referenceMark : String := "LicenseRef-"

/-- A license is written as its document if it has one, then the mark of a
reference if it is one, then its id. The document and the mark are written
independently of each other. -/
def License.text (license : License) : String :=
  (match license.document with
    | some document => documentMark ++ document ++ ":"
    | none => "")
    ++ (if license.isReference then referenceMark else "")
    ++ license.id

end LicenseExpr
