/-
Line ends.
-/

namespace LicenseExpr.Text

/-- A text in which every line ends in a line feed, whether it ended in a
carriage return, a line feed or both. -/
def unixLines : List Char → List Char
  | [] => []
  | '\r' :: '\n' :: cs => '\n' :: unixLines cs
  | '\r' :: cs => '\n' :: unixLines cs
  | c :: cs => c :: unixLines cs

end LicenseExpr.Text
