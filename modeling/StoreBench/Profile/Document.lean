import Std.Data.TreeMap
import StoreBench.Profile.Basic
import StoreBench.Workload.Document

/-! Profile documents: an object of profiles by name. Names are put into byte order and of two
equal names the later one counts, so the order of the document does not matter. -/
namespace StoreBench

/-- A profile as its document gives it. Every field may be missing at this stage. -/
structure ProfileDraft where
  weight : Option Binary64 := none
  operations : Option (List (String × Binary64)) := none
  lengthMin : Option Nat := none
  lengthMax : Option Nat := none
deriving DecidableEq, Repr

/-- An operation that a profile lists and the library does not know. -/
structure UnknownOperation where
  profile : String
  operation : String
deriving DecidableEq, Repr

def UnknownOperation.message (unknown : UnknownOperation) : String :=
  s!"profile '{unknown.profile}': ignoring unknown operation '{unknown.operation}'"

namespace ProfileDraft

open Json (Reader)

def fields : List (Reader.Field ProfileDraft) :=
  [{ name := "prob"
     required := false
     read := fun d => do return { d with weight := ← Reader.optional Reader.double } },
   { name := "ops"
     required := false
     read := fun d => do
      return { d with operations := ← Reader.optional (Reader.dictionary Reader.double) } },
   { name := "length_min"
     required := false
     read := fun d => do return { d with lengthMin := ← Reader.optional Reader.word } },
   { name := "length_max"
     required := false
     read := fun d => do return { d with lengthMax := ← Reader.optional Reader.word } }]

def read : Reader ProfileDraft := Reader.record fields {}

end ProfileDraft

/-- Members by the bytes of their names. Of equal names the later one replaces the earlier one. -/
def byName {α : Type} (members : List (String × α)) : Std.TreeMap Bytes (String × α) :=
  members.foldl (fun sorted member => sorted.insert (Bytes.ofText member.1) member) ∅

/-- Members in byte order of their names, the last of equal names kept. -/
def sortNamed {α : Type} (members : List (String × α)) : List (String × α) :=
  (byName members).toList.map Prod.snd

/-- A computation that may fail and that keeps the warnings it gave before it failed, the newest
first. -/
abbrev Warned := ExceptT ParseError (StateM (List UnknownOperation))

namespace Profile

/-- The known operations of a profile, in byte order; the others are warned about. -/
def knownOperations (profile : String) :
    List (String × Binary64) → StateM (List UnknownOperation) (List (Operation × Binary64))
  | [] => pure []
  | (spelling, weight) :: rest => do
    match Operation.ofSpelling? spelling with
    | some op => return (op, weight) :: (← knownOperations profile rest)
    | none =>
      modify (⟨profile, spelling⟩ :: ·)
      knownOperations profile rest

/-- A profile needs a weight and at least one known operation. -/
def ofDraft (name : String) (draft : ProfileDraft) : Warned Profile := do
  let some weight := draft.weight | throw (.missingField name "prob")
  let some members := draft.operations | throw (.missingField name "ops")
  let operations ← knownOperations name (sortNamed members)
  if operations.isEmpty then throw (.noOperations name)
  return { name, weight, operations
           lengthMin := draft.lengthMin.getD 0
           lengthMax := draft.lengthMax.getD 0 }

end Profile

namespace ProfileTable

/-- The members of a profile document. -/
def readMembers (bytes : Bytes) : Except ParseError (List (String × ProfileDraft)) :=
  readDocument (Json.Reader.dictionary ProfileDraft.read) bytes

/-- The table of these members, which may stand in any order. -/
def ofMembers (members : List (String × ProfileDraft)) : Warned ProfileTable :=
  (sortNamed members).mapM fun (name, draft) => Profile.ofDraft name draft

/-- The table of a document, with the warnings given on the way. -/
def parse (bytes : Bytes) : Except ParseError ProfileTable × List UnknownOperation :=
  match readMembers bytes with
  | .error e => (.error e, [])
  | .ok members =>
    let (table, warnings) := (ofMembers members).run.run []
    (table, warnings.reverse)

end ProfileTable

end StoreBench
