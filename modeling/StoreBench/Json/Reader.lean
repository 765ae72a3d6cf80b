import StoreBench.Json.Skip
import StoreBench.Json.Text

/-! Readers of typed values. A reader takes the tokens of one value from the front of a document
and gives that value, or the first fault it meets on the way. -/
namespace StoreBench.Json

abbrev Reader := StateT (List Token) (Except DocumentFault)

/-- The double that a numeral is read as. Its digits are rounded, and then the product or the
quotient with a power of ten is: of long numbers this is not always the nearest double. -/
def Numeral.value (n : Numeral) : Binary64 :=
  let magnitude := (Binary64.ofNat n.digits).scale n.exponent
  if n.negative then magnitude.neg else magnitude

/-- Numbers beyond the doubles are refused, whatever type was asked for. -/
def Numeral.outOfRange (n : Numeral) : Bool :=
  match n.value with
  | .infinite _ => true
  | _ => false

/-- The word that a numeral denotes. A negative zero is not one, and neither is a number with digits
that were left over. -/
def Numeral.word? (n : Numeral) : Option Nat :=
  if n.whole && !n.negative && n.exponent == 0 then some n.digits else none

namespace Reader

/-- The fault of a value that begins with this token and was to have another type. A text or a
number is read to its end first. -/
def refusal : Token → DocumentFault
  | .text raw ending =>
    match Text.decode raw ending with
    | .ok _ => .mistyped
    | .error fault => fault
  | .number n => if n.outOfRange then .malformed else .mistyped
  | .null | .boolean _ | .openBracket | .openBrace => .mistyped
  | .cutNumber => .truncated
  | .stray fault => fault
  | .closeBrace | .closeBracket | .colon | .comma => .malformed

/-- Drops the next token. -/
def advance : Reader Unit := fun tokens => .ok ((), tokens.tail)

def fail {α : Type} (fault : DocumentFault) : Reader α := fun _ => .error fault

def word : Reader Nat
  | [] => .error .truncated
  | .number n :: rest =>
    match n.word? with
    | some value => .ok (value, rest)
    | none => .error (refusal (.number n))
  | token :: _ => .error (refusal token)

def double : Reader Binary64
  | [] => .error .truncated
  | .number n :: rest => if n.outOfRange then .error .malformed else .ok (n.value, rest)
  | token :: _ => .error (refusal token)

def text : Reader String
  | [] => .error .truncated
  | .text raw ending :: rest =>
    match Text.decode raw ending with
    | .ok value => .ok (value, rest)
    | .error fault => .error fault
  | token :: _ => .error (refusal token)

/-- A value that may be absent, written as null. -/
def optional {α : Type} (item : Reader α) : Reader (Option α)
  | .null :: rest => .ok (none, rest)
  | tokens => (some <$> item) tokens

/-- Passes over a value of any type. -/
def skip : Reader Unit := fun tokens =>
  match Skip.run .value [] tokens with
  | .ok rest => .ok ((), rest)
  | .error fault => .error fault

/-- Whether another item of an array follows. The closing bracket is left alone, a comma is taken;
after it there has to be an item. -/
def hasItem (first : Bool) : Reader Bool
  | [] => .error .truncated
  | .closeBracket :: rest => .ok (false, .closeBracket :: rest)
  | .comma :: rest =>
    if first then .ok (true, .comma :: rest)
    else match rest with
      | [] => .error .truncated
      | .closeBracket :: _ => .error .malformed
      | _ => .ok (true, rest)
  | token :: rest => if first then .ok (true, token :: rest) else .error .malformed

/-- The name of the next member of an object, if there is one. The closing brace is taken. -/
def memberName (first : Bool) : Reader (Option String)
  | [] => .error .truncated
  | .closeBrace :: rest => .ok (none, rest)
  | .comma :: rest => if first then .error .malformed else afterComma rest
  | token :: rest => if first then afterComma (token :: rest) else .error .malformed
where
  afterComma : Reader (Option String)
    | [] => .error .truncated
    | .text raw ending :: rest => (some <$> text) (.text raw ending :: rest)
    | _ => .error .malformed

def colon : Reader Unit
  | [] => .error .truncated
  | .colon :: rest => .ok ((), rest)
  | _ => .error .malformed

/-- The items up to the closing bracket, behind those `done`, which stand newest first. The tokens
of `bound` only count the rounds; they do not run out, for each item takes a token. -/
def items {α : Type} (item : Reader α) (first : Bool) (done : List α) :
    (bound : List Token) → Reader (List α)
  | [] => fail .truncated
  | _ :: bound => do
    if ← hasItem first then
      let value ← item
      items item false (value :: done) bound
    else
      advance
      pure done.reverse

/-- The array whose items are read by `item`. -/
def array {α : Type} (item : Reader α) : Reader (List α)
  | [] => .error .truncated
  | .openBracket :: rest => items item true [] (.openBracket :: rest) rest
  | token :: _ => .error (refusal token)

/-- The members up to the closing brace, in the order of the document and behind those `done`. -/
def members {α : Type} (item : Reader α) (first : Bool) (done : List (String × α)) :
    (bound : List Token) → Reader (List (String × α))
  | [] => fail .truncated
  | _ :: bound => do
    match ← memberName first with
    | none => pure done.reverse
    | some name =>
      colon
      let value ← item
      members item false ((name, value) :: done) bound

/-- The object whose values are all read by `item`. -/
def dictionary {α : Type} (item : Reader α) : Reader (List (String × α))
  | [] => .error .truncated
  | .openBrace :: rest => members item true [] (.openBrace :: rest) rest
  | token :: _ => .error (refusal token)

/-- A field of a record under construction. -/
structure Field (ρ : Type) where
  name : String
  read : ρ → Reader ρ
  required : Bool := true

/-- The members of a record up to the closing brace. Members of other names are passed over; a
field may occur once, and `seen` holds those that did. -/
def fields {ρ : Type} (known : List (Field ρ)) (seen : List String) (draft : ρ) (first : Bool) :
    (bound : List Token) → Reader ρ
  | [] => fail .truncated
  | _ :: bound => do
    match ← memberName first with
    | none =>
      if known.all fun field => !field.required || seen.contains field.name then pure draft
      else fail .mistyped
    | some name =>
      match known.find? fun field => field.name == name with
      | none =>
        colon
        skip
        fields known seen draft false bound
      | some field =>
        if seen.contains name then fail .mistyped
        colon
        let draft ← field.read draft
        fields known (name :: seen) draft false bound

/-- The fields of a record written as an array: all of them, in order. -/
def positional {ρ : Type} (draft : ρ) (first : Bool) : List (Field ρ) → Reader ρ
  | [] => fun tokens =>
    match tokens with
    | [] => .error .truncated
    | .closeBracket :: rest => .ok (draft, rest)
    | _ => .error .malformed
  | field :: more => do
    if ← hasItem first then
      let draft ← field.read draft
      positional draft false more
    else fail .mistyped

/-- A record: an object with the known fields, or an array of their values. -/
def record {ρ : Type} (known : List (Field ρ)) (draft : ρ) : Reader ρ
  | [] => .error .truncated
  | .openBrace :: rest => fields known [] draft true (.openBrace :: rest) rest
  | .openBracket :: rest => positional draft true known rest
  | token :: _ => .error (refusal token)

/-- Reads a whole document, which holds one value and nothing after it. -/
def document {α : Type} (value : Reader α) (bytes : Bytes) : Except DocumentFault α :=
  match value (Token.lex bytes) with
  | .error fault => .error fault
  | .ok (result, []) => .ok result
  | .ok (_, _ :: _) => .error .malformed

end Reader

end StoreBench.Json
