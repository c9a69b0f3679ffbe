/-
Decoding UTF-8 strictly.

The decoder takes one byte at a time and stands either between characters
or inside one. Inside a character it knows which bytes may come next, which
is what keeps out overlong forms, surrogates and numbers above U+10FFFF. A
fault spans the bytes of the character that went wrong, without the byte
that shows it.
-/
import LicenseExpr.Text.Hex

namespace LicenseExpr.Text.Utf8

/-- Why bytes are no UTF-8. -/
inductive Reason where
  | invalidStart
  | invalidContinuation
  | unexpectedEnd
deriving DecidableEq

/-- The reason in a message. -/
def Reason.text : Reason → String
  | invalidStart => "invalid start byte"
  | invalidContinuation => "invalid continuation byte"
  | unexpectedEnd => "unexpected end of data"

/-- The bytes that could not be decoded: where they start, the first of
them, how many there are, and why. -/
structure Fault where
  start : Nat
  first : Nat
  count : Nat
  reason : Reason
deriving DecidableEq

/-- One byte is named, several are located. -/
def Fault.message (fault : Fault) : String :=
  "'utf-8' codec can't decode "
    ++ (if fault.count = 1 then
        "byte 0x" ++ String.ofList (hex 2 fault.first)
          ++ s!" in position {fault.start}"
      else
        s!"bytes in position {fault.start}-"
          ++ toString (fault.start + fault.count - 1))
    ++ ": " ++ fault.reason.text

/-- A character that has begun: its first byte, how many bytes have been
taken and how many are still to come, the least and greatest that the next
one may be, and the number so far. -/
structure Pending where
  first : Nat
  taken : Nat
  missing : Nat
  least : Nat
  greatest : Nat
  number : Nat

/-- What a first byte above the ASCII range begins, if it begins anything. -/
def begin? (byte : Nat) : Option Pending :=
  let pending (missing least greatest lead : Nat) : Option Pending :=
    some ⟨byte, 1, missing, least, greatest, byte - lead⟩
  if byte < 0xC2 then none
  else if byte < 0xE0 then pending 1 0x80 0xBF 0xC0
  else if byte = 0xE0 then pending 2 0xA0 0xBF 0xE0
  else if byte = 0xED then pending 2 0x80 0x9F 0xE0
  else if byte < 0xF0 then pending 2 0x80 0xBF 0xE0
  else if byte = 0xF0 then pending 3 0x90 0xBF 0xF0
  else if byte < 0xF4 then pending 3 0x80 0xBF 0xF0
  else if byte = 0xF4 then pending 3 0x80 0x8F 0xF0
  else none

/-- Decodes bytes that start at offset `start`, after the characters
`before`, which are in reverse. -/
def decodeFrom (start : Nat) (before : List Char) :
    Option Pending → List UInt8 → Except Fault String
  | none, [] => .ok (String.ofList before.reverse)
  | some p, [] =>
      .error ⟨start - p.taken, p.first, p.taken, .unexpectedEnd⟩
  | none, byte :: bytes =>
      if byte.toNat < 0x80 then
        decodeFrom (start + 1) (Char.ofNat byte.toNat :: before) none bytes
      else
        match begin? byte.toNat with
        | none => .error ⟨start, byte.toNat, 1, .invalidStart⟩
        | some p => decodeFrom (start + 1) before (some p) bytes
  | some p, byte :: bytes =>
      let byte := byte.toNat
      if p.least ≤ byte && byte ≤ p.greatest then
        let number := p.number * 0x40 + (byte - 0x80)
        if p.missing ≤ 1 then
          decodeFrom (start + 1) (Char.ofNat number :: before) none bytes
        else
          decodeFrom (start + 1) before
            (some
              { p with
                taken := p.taken + 1, missing := p.missing - 1
                least := 0x80, greatest := 0xBF, number })
            bytes
      else
        .error ⟨start - p.taken, p.first, p.taken, .invalidContinuation⟩

/-- The text that bytes encode, or the first fault in them. -/
def decode (bytes : List UInt8) : Except Fault String :=
  decodeFrom 0 [] none bytes

end LicenseExpr.Text.Utf8
