import StoreBench.Binary64.Basic
import StoreBench.Bytes
import StoreBench.Json.Fault
import StoreBench.Word

/-! Tokens of a document. The lexer never fails: what is wrong with the text becomes the last
token, so that a reader which stops earlier never sees it. -/
namespace StoreBench.Json

/-- A number as it is taken from the text: an integer of its digits, as far as they fit a word, and
a power of ten. -/
structure Numeral where
  negative : Bool
  digits : Nat
  exponent : Int
  /-- Written without fraction and exponent. -/
  whole : Bool
deriving DecidableEq, Repr

inductive Token where
  | openBrace
  | closeBrace
  | openBracket
  | closeBracket
  | colon
  | comma
  | null
  | boolean (value : Bool)
  | number (numeral : Numeral)
  /-- A number that the end of the document cuts off. -/
  | cutNumber
  /-- The bytes between the quotes with their escapes, and what ended them other than a quote. -/
  | text (raw : Bytes) (ending : Option DocumentFault)
  /-- Anything else. -/
  | stray (fault : DocumentFault)
deriving DecidableEq, Repr

namespace Token

open Bytes (byte isDigit)

def isBlank (b : UInt8) : Bool := b == 32 || b == 10 || b == 13 || b == 9

def isHex (b : UInt8) : Bool :=
  isDigit b || (byte 'a' ≤ b && b ≤ byte 'f') || (byte 'A' ≤ b && b ≤ byte 'F')

/-- The bytes that may follow a backslash, hexadecimal escapes apart. -/
def isEscape (b : UInt8) : Bool := "\"\\/bfnrt".toList.any fun c => byte c == b

/-- Ends the lexing with a last token. -/
def last (token : Token) : Token × Bytes := (token, [])

/-- The bytes of a text after its opening quote; `done` holds those read, newest first. -/
def lexText (done : Bytes) : Bytes → Token × Bytes
  | [] => last (.text done.reverse (some .truncated))
  | 92 :: 117 :: a :: b :: c :: d :: rest =>
    if isHex a && isHex b && isHex c && isHex d then
      lexText (d :: c :: b :: a :: 117 :: 92 :: done) rest
    else last (.text done.reverse (some .malformed))
  | 92 :: 117 :: _ => last (.text done.reverse (some .truncated))
  | 92 :: e :: rest =>
    if isEscape e then lexText (e :: 92 :: done) rest
    else last (.text done.reverse (some .malformed))
  | [92] => last (.text done.reverse (some .truncated))
  | b :: rest =>
    if b = 34 then (.text done.reverse none, rest)
    else if b < 32 then last (.text done.reverse (some .malformed))
    else lexText (b :: done) rest

/-- The digits that still fit a word behind those of `kept`, and the ones that are left over. -/
def keep (kept : Nat) : Bytes → Nat × Bytes
  | [] => (kept, [])
  | b :: rest =>
    let longer := 10 * kept + (b.toNat - 48)
    if longer ≤ wordMax then keep longer rest else (kept, b :: rest)

/-- What stands in place of digits that have to be there. -/
def noDigits (rest : Bytes) : Token × Bytes :=
  last (if rest.isEmpty then .cutNumber else .stray .malformed)

/-- The digits of an exponent, after its sign. It is added to the exponent that comes from the point
and from digits that were left over. If digits of the exponent are left over too, they do not matter
any more: the number is beyond the doubles, or zero. -/
def lexPower (negative : Bool) (digits : Nat) (exponent : Int) (down : Bool) (bytes : Bytes) :
    Token × Bytes :=
  let written := bytes.takeWhile isDigit
  let rest := bytes.dropWhile isDigit
  if written.isEmpty then noDigits rest
  else
    let power : Int := (keep 0 written).1
    (.number ⟨negative, digits, exponent + if down then -power else power, false⟩, rest)

/-- The exponent of a number, after its letter. -/
def lexExponent (negative : Bool) (digits : Nat) (exponent : Int) : Bytes → Token × Bytes
  | 43 :: rest => lexPower negative digits exponent false rest
  | 45 :: rest => lexPower negative digits exponent true rest
  | rest => lexPower negative digits exponent false rest

/-- What follows the digits after the point. -/
def lexFraction (negative : Bool) (digits : Nat) (exponent : Int) : Bytes → Token × Bytes
  | 101 :: rest => lexExponent negative digits exponent rest
  | 69 :: rest => lexExponent negative digits exponent rest
  | rest => (.number ⟨negative, digits, exponent, false⟩, rest)

/-- What follows the digits before the point, some of which are `left` over. Each of those counts as
a zero. Digits after the point go on with those that were kept, and the rest of them is ignored. -/
def lexWhole (negative : Bool) (digits : Nat) (left : Bytes) : Bytes → Token × Bytes
  | 46 :: rest =>
    let fraction := rest.takeWhile isDigit
    let rest := rest.dropWhile isDigit
    let (kept, ignored) := keep digits fraction
    let exponent : Int := left.length + ignored.length - fraction.length
    if fraction.isEmpty then noDigits rest else lexFraction negative kept exponent rest
  | 101 :: rest => lexExponent negative digits left.length rest
  | 69 :: rest => lexExponent negative digits left.length rest
  | rest => (.number ⟨negative, digits, left.length, true⟩, rest)

/-- A number after its sign. Only a lone zero may start with zero. -/
def lexNumber (negative : Bool) (bytes : Bytes) : Token × Bytes :=
  let whole := bytes.takeWhile isDigit
  let rest := bytes.dropWhile isDigit
  match whole with
  | [] => noDigits rest
  | 48 :: _ :: _ => last (.stray .malformed)
  | _ =>
    let (digits, left) := keep 0 whole
    lexWhole negative digits left rest

/-- A keyword, of which the first byte was seen. -/
def lexWord (token : Token) : (expected : Bytes) → Bytes → Token × Bytes
  | [], rest => (token, rest)
  | _ :: _, [] => last (.stray .truncated)
  | e :: expected, b :: rest =>
    if b = e then lexWord token expected rest else last (.stray .malformed)

/-- The tokens of one byte. -/
def mark? (b : UInt8) : Option Token :=
  [(byte '\x7b', openBrace), (byte '\x7d', closeBrace), (byte '[', openBracket),
    (byte ']', closeBracket), (byte ':', colon), (byte ',', comma)].lookup b

/-- Keywords by their first byte, with the bytes that have to follow. -/
def keyword? (b : UInt8) : Option (Token × Bytes) :=
  [(byte 'n', null, Bytes.ofText "ull"), (byte 't', boolean true, Bytes.ofText "rue"),
    (byte 'f', boolean false, Bytes.ofText "alse")].lookup b

/-- The token that starts with a byte which is not blank, and the bytes after it. -/
def lexFrom (b : UInt8) (rest : Bytes) : Token × Bytes :=
  match mark? b, keyword? b with
  | some token, _ => (token, rest)
  | none, some (token, expected) => lexWord token expected rest
  | none, none =>
    if b = byte '"' then lexText [] rest
    else if b = byte '-' then lexNumber true rest
    else if isDigit b then lexNumber false (b :: rest)
    else last (.stray .malformed)

/-! No token gives back more bytes than it was given, so the lexer comes to an end. -/

theorem length_lexText (done bytes : Bytes) : (lexText done bytes).2.length ≤ bytes.length := by
  fun_induction lexText done bytes
  all_goals simp_all only [last, List.length_cons, List.length_nil, Nat.zero_le]
  all_goals omega

theorem length_dropDigits (bytes : Bytes) : (bytes.dropWhile isDigit).length ≤ bytes.length :=
  (List.dropWhile_sublist isDigit).length_le

theorem length_lexPower (negative : Bool) (digits : Nat) (exponent : Int) (down : Bool)
    (bytes : Bytes) : (lexPower negative digits exponent down bytes).2.length ≤ bytes.length := by
  unfold lexPower
  dsimp only
  split
  · simp [noDigits, last]
  · exact length_dropDigits bytes

theorem length_lexExponent (negative : Bool) (digits : Nat) (exponent : Int) (bytes : Bytes) :
    (lexExponent negative digits exponent bytes).2.length ≤ bytes.length := by
  unfold lexExponent
  split
  · exact Nat.le_succ_of_le (length_lexPower ..)
  · exact Nat.le_succ_of_le (length_lexPower ..)
  · exact length_lexPower ..

theorem length_lexFraction (negative : Bool) (digits : Nat) (exponent : Int) (bytes : Bytes) :
    (lexFraction negative digits exponent bytes).2.length ≤ bytes.length := by
  unfold lexFraction
  split
  · exact Nat.le_succ_of_le (length_lexExponent ..)
  · exact Nat.le_succ_of_le (length_lexExponent ..)
  · exact Nat.le_refl _

theorem length_lexWhole (negative : Bool) (digits : Nat) (left bytes : Bytes) :
    (lexWhole negative digits left bytes).2.length ≤ bytes.length := by
  unfold lexWhole
  split
  · rename_i rest
    have shorter := length_dropDigits rest
    dsimp only
    split
    · simp [noDigits, last]
    · exact Nat.le_succ_of_le (Nat.le_trans (length_lexFraction ..) shorter)
  · exact Nat.le_succ_of_le (length_lexExponent ..)
  · exact Nat.le_succ_of_le (length_lexExponent ..)
  · exact Nat.le_refl _

theorem length_lexNumber (negative : Bool) (bytes : Bytes) :
    (lexNumber negative bytes).2.length ≤ (bytes.dropWhile isDigit).length := by
  unfold lexNumber
  dsimp only
  split
  · simp [noDigits, last]
  · simp [last]
  · exact length_lexWhole ..

theorem length_lexWord (token : Token) (expected bytes : Bytes) :
    (lexWord token expected bytes).2.length ≤ bytes.length := by
  fun_induction lexWord token expected bytes with
  | case1 => exact Nat.le_refl _
  | case2 => exact Nat.zero_le _
  | case3 expected b rest ih => exact Nat.le_succ_of_le ih
  | case4 => exact Nat.zero_le _

theorem length_lexFrom (b : UInt8) (rest : Bytes) : (lexFrom b rest).2.length ≤ rest.length := by
  unfold lexFrom
  split
  · exact Nat.le_refl _
  · exact length_lexWord ..
  · split
    · exact length_lexText ..
    split
    · exact Nat.le_trans (length_lexNumber ..) (length_dropDigits rest)
    split
    · rename_i digit
      have shorter := length_lexNumber false (b :: rest)
      rw [List.dropWhile_cons_of_pos digit] at shorter
      exact Nat.le_trans shorter (length_dropDigits rest)
    · exact Nat.zero_le _

/-- The tokens of the bytes, behind the tokens already `done`, which stand newest first. -/
def lexOnto (done : List Token) (bytes : Bytes) : List Token :=
  match bytes with
  | [] => done.reverse
  | b :: rest =>
    if isBlank b then lexOnto done rest
    else lexOnto ((lexFrom b rest).1 :: done) (lexFrom b rest).2
termination_by bytes.length
decreasing_by
  · simp
  · exact Nat.lt_succ_of_le (length_lexFrom b rest)

def lex (document : Bytes) : List Token := lexOnto [] document

end Token

end StoreBench.Json
