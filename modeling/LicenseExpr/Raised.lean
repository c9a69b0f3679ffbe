/-
Errors that are none of the library's own.

They come up on the way to something else, from a value that does not fit or
from the system, and are passed on as they are: a kind and a message.
-/

namespace LicenseExpr

/-- An error by the name of its kind and its message. -/
structure Raised where
  kind : String
  message : String
deriving DecidableEq

namespace Raised

/-- An integer was to be written in more digits than are allowed. -/
def tooManyDigits : Raised where
  kind := "ValueError"
  message := "Exceeds the limit (4300 digits) for integer string conversion; "
    ++ "use sys.set_int_max_str_digits() to increase the limit"

/-- Something that is no expression was to be written as one. -/
def notAnExpression (name : String) : Raised where
  kind := "TypeError"
  message := "not an SPDX expression node: " ++ name

/-- A value does not have what was asked of it. -/
def noMember (typeName member : String) : Raised where
  kind := "AttributeError"
  message := "'" ++ typeName ++ "' object has no attribute '" ++ member ++ "'"

end Raised

end LicenseExpr
