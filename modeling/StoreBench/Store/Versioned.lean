import Std.Data.TreeMap
import StoreBench.Sample.Basic
import StoreBench.Store.Basic

/-! An optimistic store in memory. Every key carries the version of the commit that last touched
it. A transaction reads at the version that it began at and buffers what it changes; a commit is
refused if anything it wrote or read has a newer version, and is installed at once otherwise. -/
namespace StoreBench

/-- What a commit left of a key. A dropped key keeps its version and has no value. -/
structure Record where
  value : Option Bytes
  version : Nat
deriving DecidableEq, Repr

structure VersionedStore where
  records : Std.TreeMap Bytes Record := ∅
  /-- The version of the latest installed commit; zero for the empty store. -/
  version : Nat := 0

/-- An open transaction on a versioned store. -/
structure OpenTransaction where
  /-- The version that the transaction reads at. -/
  snapshot : Nat
  /-- Keys read from the store itself, newest first; a key may occur several times. -/
  reads : List Bytes := []
  /-- Values to be written, and keys to be dropped. -/
  pending : Std.TreeMap Bytes (Option Bytes) := ∅
  /-- Set by a write to a key that is newer than the snapshot. -/
  failed : Bool := false

namespace VersionedStore

/-- Whether a commit after `snapshot` touched the key. -/
def newerThan (s : VersionedStore) (key : Bytes) (snapshot : Nat) : Bool :=
  match s.records[key]? with
  | some record => snapshot < record.version
  | none => false

/-- The value that a transaction at `snapshot` finds in the store. Newer records hide it. -/
def valueAt (s : VersionedStore) (key : Bytes) (snapshot : Nat) : Option Bytes :=
  match s.records[key]? with
  | some record => if record.version ≤ snapshot then record.value else none
  | none => none

def start (s : VersionedStore) : OpenTransaction := { snapshot := s.version }

/-- The status of a look-up. -/
def found (value : Option Bytes) : Status := if value.isSome then .ok else .valueNotFound

/-- A transaction sees its own changes first. Only a read that goes to the store is remembered. -/
def read (s : VersionedStore) (tx : OpenTransaction) (key : Bytes) :
    OpenTransaction × Option Bytes × Status :=
  match tx.pending[key]? with
  | some value => (tx, value, found value)
  | none =>
    let value := s.valueAt key tx.snapshot
    ({ tx with reads := key :: tx.reads }, value, found value)

/-- A write to a key that is newer than the snapshot cannot succeed any more: it dooms the
transaction and changes nothing else. -/
def write (s : VersionedStore) (tx : OpenTransaction) (key value : Bytes) :
    OpenTransaction × Status :=
  if s.newerThan key tx.snapshot then ({ tx with failed := true }, .valueNotFound)
  else ({ tx with pending := tx.pending.insert key (some value) }, .ok)

/-- Drops a key that the transaction can see. A key that it cannot see is left alone, and the
attempt is not remembered. -/
def drop (s : VersionedStore) (tx : OpenTransaction) (key : Bytes) : OpenTransaction × Status :=
  match tx.pending[key]? with
  | some (some _) => ({ tx with pending := tx.pending.insert key none }, .ok)
  | some none => (tx, .valueNotFound)
  | none =>
    if (s.valueAt key tx.snapshot).isSome then
      ({ tx with pending := tx.pending.insert key none }, .ok)
    else (tx, .valueNotFound)

/-- Installs changes under the next version. -/
def install (s : VersionedStore) (changes : List (Bytes × Option Bytes)) : VersionedStore :=
  let version := s.version + 1
  { records := changes.foldl (fun rs (key, value) => rs.insert key ⟨value, version⟩) s.records
    version }

/-- What a commit is answered. Conflicts of written keys are found before those of read keys. -/
def verdict (s : VersionedStore) (tx : OpenTransaction) : Status :=
  if tx.failed then .invalidTx
  else if tx.pending.toList.any fun change => s.newerThan change.1 tx.snapshot then .wwConflict
  else if tx.reads.any fun key => s.newerThan key tx.snapshot then .rwConflict
  else .ok

/-- A commit that is not refused and changes something makes a new version. -/
def commit (s : VersionedStore) (tx : OpenTransaction) : Status × VersionedStore :=
  let status := s.verdict tx
  if status = .ok ∧ tx.pending.isEmpty = false then (status, s.install tx.pending.toList)
  else (status, s)

/-- The number of keys that have a value. -/
def live (s : VersionedStore) : Nat :=
  (s.records.toList.filter fun entry => entry.2.value.isSome).length

/-- Writes a list of changes, then commits: a put for a value, a drop for none. The answers of the
single calls are not looked at. -/
def apply (s : VersionedStore) (changes : List (Bytes × Option Bytes)) : Status × VersionedStore :=
  let tx := changes.foldl (fun tx (key, change) =>
    match change with
    | some value => (s.write tx key value).1
    | none => (s.drop tx key).1) s.start
  s.commit tx

/-- Loads every pair in one transaction. -/
def populate (s : VersionedStore) (samples : SampleSet) : Status × VersionedStore :=
  s.apply (samples.toList.map fun pair => (pair.key, some pair.value))

/-- The calls of the store, for a benchmark. -/
def calls : Store VersionedStore OpenTransaction where
  start := .ofStep fun s => (s.start, s)
  read tx key := .ofStep fun s => (s.read tx key, s)
  write tx key value := .ofStep fun s => (s.write tx key value, s)
  drop tx key := .ofStep fun s => (s.drop tx key, s)
  commit tx := .ofStep fun s => s.commit tx
  doomed tx := .ofStep fun s => (tx.failed, s)

end VersionedStore

end StoreBench
