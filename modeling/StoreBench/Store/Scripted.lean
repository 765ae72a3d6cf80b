import StoreBench.Store.Basic

/-! A store without data that answers from a script. It stands in for any store: whatever answers
a benchmark can meet, a script can give. -/
namespace StoreBench

/-- Each list answers the calls of its kind in turn, over and over. An empty list answers that all
is well. -/
structure Script where
  reads : List Status := []
  writes : List Status := []
  commits : List Status := []
  dooms : List Bool := []
  /-- A read or write of this key does not return. -/
  brokenKey : Option Bytes := none
deriving DecidableEq, Repr

/-- How many calls of each kind were answered. -/
structure ScriptPosition where
  reads : Nat := 0
  writes : Nat := 0
  commits : Nat := 0
  dooms : Nat := 0
deriving DecidableEq, Repr

namespace Script

/-- The answer to call number `n` of a kind. -/
def answer {α : Type} (answers : List α) (otherwise : α) (n : Nat) : α :=
  answers.getD (n % answers.length) otherwise

/-- Fails on the broken key and does nothing otherwise. -/
def touch (script : Script) (key : Bytes) : Effect ScriptPosition Unit :=
  if script.brokenKey = some key then throw .storeCall else pure ()

/-- The store that follows a script. Handles carry nothing. -/
def store (script : Script) : Store ScriptPosition Unit where
  start := pure ()
  read _ key := do
    script.touch key
    .ofStep fun at_ => (((), none, answer script.reads .ok at_.reads),
      { at_ with reads := at_.reads + 1 })
  write _ key _ := do
    script.touch key
    .ofStep fun at_ => (((), answer script.writes .ok at_.writes),
      { at_ with writes := at_.writes + 1 })
  drop _ _ := pure ((), .valueNotFound)
  commit _ := .ofStep fun at_ => (answer script.commits .ok at_.commits,
    { at_ with commits := at_.commits + 1 })
  doomed _ := .ofStep fun at_ => (answer script.dooms false at_.dooms,
    { at_ with dooms := at_.dooms + 1 })

end Script

end StoreBench
