import StoreBench.Bytes

/-! Writing documents. Parts are laid out from the inside: a part is printed for the depth at
which it stands, and the functions here put brackets, commas and blanks around it. -/
namespace StoreBench.Json.Layout

open Bytes (byte)

/-- A new line, indented by two blanks for each level of depth. -/
def freshLine (depth : Nat) : Bytes := 10 :: List.replicate (2 * depth) 32

/-- Parts one below the other between an opening and a closing byte. Nothing is put between the
two if there are no parts. -/
def block (opening closing : UInt8) (depth : Nat) (parts : List Bytes) : Bytes :=
  match parts with
  | [] => [opening, closing]
  | part :: more =>
    opening :: freshLine (depth + 1) ++ part ++
      more.flatMap (fun part => byte ',' :: freshLine (depth + 1) ++ part) ++
      freshLine depth ++ [closing]

/-- An array of parts that were printed for `depth + 1`. -/
def array (depth : Nat) (parts : List Bytes) : Bytes := block (byte '[') (byte ']') depth parts

/-- A text that needs no escapes, as all names and spellings of this library. -/
def quoted (text : String) : Bytes := byte '"' :: Bytes.ofText text ++ [byte '"']

def member (name : String) (value : Bytes) : Bytes := quoted name ++ byte ':' :: byte ' ' :: value

/-- An object of named parts that were printed for `depth + 1`. -/
def object (depth : Nat) (members : List (String × Bytes)) : Bytes :=
  block (byte '\x7b') (byte '\x7d') depth (members.map fun (name, value) => member name value)

/-- An object without any blanks. -/
def compactObject (members : List (String × Bytes)) : Bytes :=
  let parts := members.map fun (name, value) => quoted name ++ byte ':' :: value
  byte '\x7b' :: [byte ','].intercalate parts ++ [byte '\x7d']

end StoreBench.Json.Layout
