/-
The values of a TOML document that are written as one word: booleans,
integers, floats, days and times.

A word ends at a blank, a line end, a comment or one of the characters that
end a value inside brackets. Whatever is not exactly one of these values is
malformed.
-/
import LicenseExpr.Decimal.Reading
import LicenseExpr.Toml.Lexeme
import LicenseExpr.Value

namespace LicenseExpr.Toml

open Text

/-- Characters that a word cannot hold. -/
def endsWord (c : Char) : Bool :=
  isSpace c || c == '\n' || c == '#' || c == ',' || c == ']' || c == '\x7d'

-- ========================================================= numbers

/-- Digits without the underscores between them. An underscore must have a
digit on both sides, and there must be a digit. -/
def ungrouped? (isDigit : Char → Bool) : List Char → Option (List Char)
  | [] => none
  | [c] => if isDigit c then some [c] else none
  | c :: '_' :: rest =>
      if isDigit c then (ungrouped? isDigit rest).map (c :: ·) else none
  | c :: rest =>
      if isDigit c then (ungrouped? isDigit rest).map (c :: ·) else none

/-- The value of digits in a base up to sixteen. -/
def ofDigits (base : Nat) (digits : List Char) : Nat :=
  digits.foldl (fun n c => base * n + (hexValue? c).getD 0) 0

/-- A word's sign, and the word without it. -/
def unsigned : List Char → Option Bool × List Char
  | '-' :: rest => (some true, rest)
  | '+' :: rest => (some false, rest)
  | cs => (none, cs)

/-- Decimal digits that do not begin with a superfluous zero. -/
def wholeDigits? (cs : List Char) : Option (List Char) :=
  match ungrouped? Char.isDigit cs with
  | some ('0' :: _ :: _) => none
  | digits => digits

/-- The digits of a number in base two, eight or sixteen. -/
def basedInteger? (base : Nat) (cs : List Char) : Option Int :=
  let isDigit (c : Char) := (hexValue? c).any (· < base)
  (ungrouped? isDigit cs).map fun digits => (ofDigits base digits : Int)

/-- A whole number in base ten, or with a mark in another base. -/
def integer? (cs : List Char) : Option Int :=
  match cs with
  | '0' :: 'x' :: rest => basedInteger? 16 rest
  | '0' :: 'o' :: rest => basedInteger? 8 rest
  | '0' :: 'b' :: rest => basedInteger? 2 rest
  | _ =>
      let (sign, rest) := unsigned cs
      (wholeDigits? rest).map fun digits =>
        let value : Int := ofDigits 10 digits
        if sign = some true then -value else value

/-- The digits of an exponent with their sign, or nothing at all. -/
def exponent? : List Char → Option Int
  | [] => some 0
  | mark :: rest =>
      if mark != 'e' && mark != 'E' then none
      else
        let (sign, rest) := unsigned rest
        (ungrouped? Char.isDigit rest).map fun digits =>
          let value : Int := ofDigits 10 digits
          if sign = some true then -value else value

/-- The magnitude of a float. -/
def floatMagnitude? (cs : List Char) : Option Float :=
  if cs = ['i', 'n', 'f'] || cs = ['n', 'a', 'n'] then
    Decimal.readMagnitude? cs
  else do
    let isPart (c : Char) : Bool := c.isDigit || c == '_'
    let whole ← wholeDigits? (cs.takeWhile isPart)
    match cs.dropWhile isPart with
    | '.' :: rest =>
        let decimals ← ungrouped? Char.isDigit (rest.takeWhile isPart)
        let exponent ← exponent? (rest.dropWhile isPart)
        some (Decimal.nearest (ofDigits 10 (whole ++ decimals))
          (exponent - decimals.length))
    | rest => do
        let exponent ← exponent? rest
        some (Decimal.nearest (ofDigits 10 whole) exponent)

/-- A number with decimals, an exponent or both, or a word for one. -/
def float? (cs : List Char) : Option Float :=
  let (sign, rest) := unsigned cs
  (floatMagnitude? rest).map fun x => if sign = some true then -x else x

-- ================================================== days and times

/-- A number of exactly `width` decimal digits. -/
def fixedDigits (width : Nat) : Recognizer Nat := fun cs =>
  let digits := cs.take width
  if digits.length = width && digits.all Char.isDigit then
    some (ofDigits 10 digits, cs.drop width)
  else none

/-- A character that is one of those given. -/
def oneOf (allowed : List Char) : Recognizer Char
  | [] => none
  | c :: rest => if allowed.contains c then some (c, rest) else none

/-- A day, as `year-month-day`. -/
def day : Recognizer Day := fun cs => do
  let (year, cs) ← fixedDigits 4 cs
  let (_, cs) ← oneOf ['-'] cs
  let (month, cs) ← fixedDigits 2 cs
  let (_, cs) ← oneOf ['-'] cs
  let (day, cs) ← fixedDigits 2 cs
  let day : Day := ⟨year, month, day⟩
  if day.isValid then some (day, cs) else none

/-- Decimals of a second in microseconds; what is finer is cut off. -/
def microseconds (digits : List Char) : Nat :=
  ofDigits 10 ((digits ++ List.replicate 6 '0').take 6)

/-- A time of day, as `hour:minute:second` with decimals if wanted. -/
def time : Recognizer TimeOfDay := fun cs => do
  let (hour, cs) ← fixedDigits 2 cs
  let (_, cs) ← oneOf [':'] cs
  let (minute, cs) ← fixedDigits 2 cs
  let (_, cs) ← oneOf [':'] cs
  let (second, cs) ← fixedDigits 2 cs
  let (microsecond, cs) ←
    match cs with
    | '.' :: cs =>
        match cs.takeWhile Char.isDigit with
        | [] => none
        | digits => some (microseconds digits, cs.dropWhile Char.isDigit)
    | cs => some (0, cs)
  let time : TimeOfDay := ⟨hour, minute, second, microsecond⟩
  if time.isValid then some (time, cs) else none

/-- An offset: a `Z` for none, or a sign, hours and minutes. -/
def offset : Recognizer Offset := fun cs => do
  let (mark, cs) ← oneOf ['Z', 'z', '+', '-'] cs
  if mark == 'Z' || mark == 'z' then some (⟨0, "UTC"⟩, cs)
  else
    let written := String.ofList (mark :: cs.take 5)
    let (hours, cs) ← fixedDigits 2 cs
    let (_, cs) ← oneOf [':'] cs
    let (minutes, cs) ← fixedDigits 2 cs
    if 24 ≤ hours || 60 ≤ minutes then none
    else
      let seconds : Int := hours * 3600 + minutes * 60
      some (⟨if mark == '-' then -seconds else seconds, written⟩, cs)

/-- The time of day after a day, and the offset if there is one, up to the
end of a word. -/
def timeAfter? (day : Day) (cs : List Char) : Option Moment := do
  let (time, cs) ← time cs
  match cs with
  | [] => some (.dayTime day time none)
  | cs =>
      let (offset, cs) ← offset cs
      if cs = [] then some (.dayTime day time (some offset)) else none

/-- A day, a time or both, as a whole word. -/
def moment? (cs : List Char) : Option Moment :=
  match day cs with
  | some (day, []) => some (.day day)
  | some (day, mark :: rest) =>
      if mark == 'T' || mark == 't' then timeAfter? day rest else none
  | none =>
      match time cs with
      | some (time, []) => some (.time time)
      | _ => none

-- =========================================================== words

/-- The value that a word stands for. -/
def word? (cs : List Char) : Option Value :=
  if cs = "true".toList then some (.bool true)
  else if cs = "false".toList then some (.bool false)
  else
    ((integer? cs).map Value.int)
      <|> ((float? cs).map Value.float)
      <|> ((moment? cs).map Value.moment)

/-- A word, and the value it stands for. A day may be followed by a single
space and a time, which then belongs to it. -/
def scalar : Recognizer Value := fun cs => do
  let value ← word? (cs.takeWhile fun c => !endsWord c)
  let rest := cs.dropWhile fun c => !endsWord c
  match value, rest with
  | .moment (.day day), ' ' :: c :: rest' =>
      if c.isDigit then
        let moment ←
          timeAfter? day ((c :: rest').takeWhile fun c => !endsWord c)
        some (.moment moment, (c :: rest').dropWhile fun c => !endsWord c)
      else some (value, rest)
  | value, rest => some (value, rest)

end LicenseExpr.Toml
