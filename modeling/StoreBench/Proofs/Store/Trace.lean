import StoreBench.Proofs.Store.Changes

/-! Transactions under observation. A trace is what a transaction's calls and their answers tell;
it is kept beside the handle, and no call on the store looks at it. -/
namespace StoreBench

/-- A call made inside a transaction, with its answer. Its moment is the number of transactions
that had committed before it. -/
inductive Event where
  | read (moment : Nat) (key : Bytes) (value : Option Bytes) (status : Status)
  | write (moment : Nat) (key value : Bytes) (status : Status)
  | drop (moment : Nat) (key : Bytes) (status : Status)
deriving DecidableEq, Repr

namespace Event

def moment : Event → Nat
  | .read moment .. => moment
  | .write moment .. => moment
  | .drop moment .. => moment

def key : Event → Bytes
  | .read _ key .. => key
  | .write _ key .. => key
  | .drop _ key .. => key

/-- What the call changed. Only a write or a drop that was answered OK changes anything. -/
def change? : Event → Option (Bytes × Option Bytes)
  | .write _ key value .ok => some (key, some value)
  | .drop _ key .ok => some (key, none)
  | _ => none

theorem key_of_change {event : Event} {change : Bytes × Option Bytes}
    (h : event.change? = some change) : change.1 = event.key := by
  rw [change?.eq_def] at h
  split at h
  · cases h
    rfl
  · cases h
    rfl
  · cases h

end Event

/-- What is written down of a transaction. -/
structure Trace where
  /-- The number of transactions that had committed when this one began. -/
  began : Nat := 0
  /-- The calls that it made, the oldest first. -/
  events : List Event := []

/-- A transaction with what is written down of it. -/
structure Traced extends Trace where
  handle : OpenTransaction

/-- The changes that were answered OK, in the order of the calls. -/
def changesOf (events : List Event) : Changes := events.filterMap Event.change?

theorem changesOf_snoc_none (events : List Event) {event : Event} (h : event.change? = none) :
    changesOf (events ++ [event]) = changesOf events := by
  simp [changesOf, h]

theorem changesOf_snoc_some (events : List Event) {event : Event} {change : Bytes × Option Bytes}
    (h : event.change? = some change) :
    changesOf (events ++ [event]) = changesOf events ++ [change] := by
  simp [changesOf, h]

theorem changesOf_snoc_other (events : List Event) (event : Event) (contents : Contents)
    {key : Bytes} (hKey : key ≠ event.key) :
    (changesOf (events ++ [event])).on contents key = (changesOf events).on contents key := by
  cases hChange : event.change? with
  | none => rw [changesOf_snoc_none _ hChange]
  | some change =>
      rw [← Event.key_of_change hChange] at hKey
      rw [changesOf_snoc_some _ hChange, Changes.on_snoc, Function.update_of_ne hKey]

/-- The positions of a list with one more member are those before and the last one. -/
theorem getElem?_snoc_iff {α : Type} {members : List α} {added found : α} {i : Nat} :
    (members ++ [added])[i]? = some found ↔
      members[i]? = some found ∨ i = members.length ∧ found = added := by
  rcases Nat.lt_trichotomy i members.length with hBefore | rfl | hBehind
  · rw [List.getElem?_append_left hBefore]
    simp [Nat.ne_of_lt hBefore]
  · simp [eq_comm]
  · rw [List.getElem?_eq_none (by simp; omega), List.getElem?_eq_none (Nat.le_of_lt hBehind)]
    simp [Nat.ne_of_gt hBehind]

theorem take_snoc {α : Type} {members : List α} {added found : α} {i : Nat}
    (hFound : members[i]? = some found) : (members ++ [added]).take i = members.take i :=
  List.take_append_of_le_length (Nat.le_of_lt (List.getElem?_eq_some_iff.mp hFound).1)

theorem take_succ_of_found {α : Type} {members : List α} {found : α} {i : Nat}
    (hFound : members[i]? = some found) : members.take (i + 1) = members.take i ++ [found] := by
  rw [List.take_add_one, hFound, Option.toList_some]

namespace Traced

variable (s : VersionedStore) (now : Nat) (tx : Traced)

/-- Adds a call and its answer. -/
def noted (handle : OpenTransaction) (event : Event) : Traced :=
  { began := tx.began, events := tx.events ++ [event], handle }

def start : Traced := { began := now, handle := s.start }

def read (key : Bytes) : Traced :=
  let (handle, value, status) := s.read tx.handle key
  tx.noted handle (.read now key value status)

def write (key value : Bytes) : Traced :=
  let (handle, status) := s.write tx.handle key value
  tx.noted handle (.write now key value status)

def drop (key : Bytes) : Traced :=
  let (handle, status) := s.drop tx.handle key
  tx.noted handle (.drop now key status)

/-- The same call once more, whatever its answer was. -/
def again : Event → Traced
  | .read _ key _ _ => tx.read s now key
  | .write _ key value _ => tx.write s now key value
  | .drop _ key _ => tx.drop s now key

/-- The same calls once more, as a transaction that nobody interrupts. -/
def alone (calls : List Event) : Traced := calls.foldl (again s now) (start s now)

theorem alone_snoc (calls : List Event) (call : Event) :
    alone s now (calls ++ [call]) = (alone s now calls).again s now call := by
  rw [alone, List.foldl_append, List.foldl_cons, List.foldl_nil, alone]

theorem again_events (call : Event) : ∃ answered : Event,
    (tx.again s now call).events = tx.events ++ [answered] ∧ answered.key = call.key := by
  cases call <;> exact ⟨_, rfl, rfl⟩

theorem again_began (call : Event) : (tx.again s now call).began = tx.began := by
  cases call <;> rfl

theorem alone_began (calls : List Event) : (alone s now calls).began = now := by
  induction calls using List.reverseRecOn with
  | nil => rfl
  | append_singleton calls call ih => rw [alone_snoc, again_began, ih]

/-- Loading pairs, as one transaction that nobody interrupts. -/
def loading (samples : SampleSet) : Traced :=
  samples.toList.foldl (fun tx pair => tx.write s now pair.key pair.value) (start s now)

/-- Loading pairs is one commit of the writes of all pairs. -/
theorem populate_eq (samples : SampleSet) :
    s.populate samples = s.commit (loading s now samples).handle := by
  have general (pairs : List Pair) (tx : Traced) :
      (pairs.foldl (fun tx pair => tx.write s now pair.key pair.value) tx).handle =
        pairs.foldl (fun handle pair => (s.write handle pair.key pair.value).1) tx.handle := by
    induction pairs generalizing tx with
    | nil => rfl
    | cons pair rest ih => exact ih (tx.write s now pair.key pair.value)
  rw [VersionedStore.populate, VersionedStore.apply, List.foldl_map, loading, general, start]

end Traced

end StoreBench
