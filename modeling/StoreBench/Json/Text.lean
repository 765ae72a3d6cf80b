import StoreBench.Bytes
import StoreBench.Json.Fault

/-! The content of a text token: escapes are replaced, surrogate pairs are joined, and the result
has to be well-formed UTF-8. -/
namespace StoreBench.Json

namespace Text

open Bytes (byte)

def hexValue (b : UInt8) : Option Nat :=
  if Bytes.isDigit b then some (b.toNat - 48)
  else if byte 'a' ≤ b && b ≤ byte 'f' then some (b.toNat - 87)
  else if byte 'A' ≤ b && b ≤ byte 'F' then some (b.toNat - 55)
  else none

def hex4 (a b c d : UInt8) : Option Nat := do
  return (((← hexValue a) * 16 + (← hexValue b)) * 16 + (← hexValue c)) * 16 + (← hexValue d)

/-- The byte that a one-letter escape stands for. -/
def escaped (b : UInt8) : Option UInt8 :=
  if b = byte 'b' then some 8
  else if b = byte 'f' then some 12
  else if b = byte 'n' then some 10
  else if b = byte 'r' then some 13
  else if b = byte 't' then some 9
  else if b = byte '"' || b = byte '\\' || b = byte '/' then some b
  else none

/-- The UTF-8 bytes of a code point, newest first. -/
def codePoint (n : Nat) : Bytes := (String.utf8EncodeChar (Char.ofNat n)).reverse

/-- Replaces the escapes of a raw text. `high` is a leading surrogate that waits for its partner,
`ending` what cut the raw text off, and `done` the bytes so far, newest first. -/
def unescape (ending : Option DocumentFault) (high : Option Nat) (done : Bytes) :
    Bytes → Except DocumentFault Bytes
  | [] =>
    match ending, high with
    | some fault, _ => .error fault
    | none, some _ => .error .malformed
    | none, none => .ok done.reverse
  | 92 :: 117 :: a :: b :: c :: d :: rest =>
    match hex4 a b c d, high with
    | none, _ => .error .malformed
    | some n, some lead =>
      if 0xDC00 ≤ n ∧ n ≤ 0xDFFF then
        let joined := 0x10000 + (lead - 0xD800) * 0x400 + (n - 0xDC00)
        unescape ending none (codePoint joined ++ done) rest
      else .error .malformed
    | some n, none =>
      if 0xDC00 ≤ n ∧ n ≤ 0xDFFF then .error .malformed
      else if 0xD800 ≤ n ∧ n ≤ 0xDBFF then unescape ending (some n) done rest
      else unescape ending none (codePoint n ++ done) rest
  | 92 :: e :: rest =>
    match escaped e, high with
    | some b, none => unescape ending none (b :: done) rest
    | _, _ => .error .malformed
  | b :: rest =>
    match high with
    | some _ => .error .malformed
    | none => unescape ending none (b :: done) rest

/-- The text that a token stands for when it is kept. -/
def decode (raw : Bytes) (ending : Option DocumentFault) : Except DocumentFault String := do
  match Bytes.toText? (← unescape ending none [] raw) with
  | some text => .ok text
  | none => .error .malformed

end Text

end StoreBench.Json
