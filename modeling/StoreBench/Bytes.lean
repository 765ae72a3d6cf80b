/-! Byte strings. Keys, values, documents and file contents are lists of bytes; nothing in the
library looks inside a key or a value. Text is turned into bytes in one way only, UTF-8. -/
namespace StoreBench

abbrev Bytes := List UInt8

namespace Bytes

/-- The UTF-8 form of a text. -/
def ofText (text : String) : Bytes := text.toList.flatMap String.utf8EncodeChar

/-- The text whose UTF-8 form these bytes are. Nothing is repaired: a byte string that is not
well formed has no text. -/
def toText? (bytes : Bytes) : Option String := String.fromUTF8? ⟨bytes.toArray⟩

/-- The byte of an ASCII character. -/
def byte (c : Char) : UInt8 := c.toNat.toUInt8

/-- The ASCII digit of a number below ten. -/
def digit (n : Nat) : UInt8 := (48 + n).toUInt8

/-- Decimal digits without leading zeros. -/
def decimal (n : Nat) : Bytes :=
  if n < 10 then [digit n] else decimal (n / 10) ++ [digit (n % 10)]

def isDigit (b : UInt8) : Bool := 48 ≤ b && b ≤ 57

/-- The number that digits denote behind those of `value`, taken one after the other. -/
def extend (value : Nat) (digits : Bytes) : Nat :=
  digits.foldl (fun value d => 10 * value + (d.toNat - 48)) value

end Bytes

end StoreBench
