import Mathlib.Data.List.Induction
import Mathlib.Logic.Function.Basic
import StoreBench.Proofs.Keys
import StoreBench.Store.Versioned

/-! What changes of keys leave behind, in plain contents and in the records of a versioned store.
Changes are made in order, so only the last one of a key counts. -/
namespace StoreBench

/-- A store seen from outside: the values of its keys. A key without a value is not there. -/
abbrev Contents := Bytes → Option Bytes

/-- New values of keys, the oldest first. No value drops the key. -/
abbrev Changes := List (Bytes × Option Bytes)

namespace Changes

/-- The last change of a key, if there is one. -/
def last (changes : Changes) (key : Bytes) : Option (Option Bytes) := changes.reverse.lookup key

/-- Contents after the changes. -/
def on (changes : Changes) (contents : Contents) : Contents :=
  changes.foldl (fun contents change => Function.update contents change.1 change.2) contents

@[simp] theorem last_nil (key : Bytes) : last [] key = none := rfl

@[simp] theorem last_snoc (changes : Changes) (change : Bytes × Option Bytes) (key : Bytes) :
    last (changes ++ [change]) key =
      if key = change.1 then some change.2 else changes.last key := by
  obtain ⟨changed, value⟩ := change
  by_cases hKey : key = changed
  · simp [last, hKey]
  · simp [last, List.lookup_cons, beq_eq_false_iff_ne.mpr hKey, hKey]

theorem on_snoc (changes : Changes) (change : Bytes × Option Bytes) (contents : Contents) :
    on (changes ++ [change]) contents =
      Function.update (changes.on contents) change.1 change.2 := by
  simp [on]

theorem on_apply (changes : Changes) (contents : Contents) (key : Bytes) :
    changes.on contents key = (changes.last key).getD (contents key) := by
  induction changes using List.reverseRecOn with
  | nil => rfl
  | append_singleton changes change ih =>
      rw [on_snoc, last_snoc, Function.update_apply, ih]
      split <;> rfl

theorem last_isSome_iff (changes : Changes) (key : Bytes) :
    (changes.last key).isSome = true ↔ ∃ change ∈ changes, change.1 = key := by
  simp only [last, List.lookup_isSome_iff, List.mem_reverse, beq_iff_eq, eq_comm (a := key)]

/-- Listing a map gives every key once, so that the last change of a key is the one in the map. -/
theorem last_toList (pending : Std.TreeMap Bytes (Option Bytes)) (key : Bytes) :
    last pending.toList key = pending[key]? := by
  have hFound : ∀ value, last pending.toList key = some value → pending[key]? = some value := by
    intro value hLast
    obtain ⟨newer, older, hSplit, _⟩ := List.lookup_eq_some_iff.mp hLast
    rw [← Std.TreeMap.mem_toList_iff_getElem?_eq_some, ← List.mem_reverse, hSplit]
    simp
  cases hLast : last pending.toList key with
  | some value => exact (hFound value hLast).symm
  | none =>
      cases hPending : pending[key]? with
      | none => rfl
      | some value =>
          rw [← Std.TreeMap.mem_toList_iff_getElem?_eq_some, ← List.mem_reverse] at hPending
          have hAbsent := List.lookup_eq_none_iff.mp hLast _ hPending
          simp at hAbsent

end Changes

namespace VersionedStore

/-- The values that a store holds, whatever their versions. -/
def contents (s : VersionedStore) : Contents := fun key => s.records[key]?.bind (·.value)

theorem found_eq_ok_iff (value : Option Bytes) : found value = .ok ↔ value ≠ none := by
  cases value <;> simp [found]

theorem records_insert_all (version : Nat) (changes : Changes) (records : Std.TreeMap Bytes Record)
    (key : Bytes) :
    (changes.foldl (fun rs change => rs.insert change.1 (Record.mk change.2 version))
        records)[key]? =
      match changes.last key with
      | some value => some ⟨value, version⟩
      | none => records[key]? := by
  induction changes using List.reverseRecOn with
  | nil => rfl
  | append_singleton changes change ih =>
      rw [List.foldl_append, List.foldl_cons, List.foldl_nil, getElem?_insert_eq,
        Changes.last_snoc, ih]
      split <;> rfl

/-- Installing gives the changed keys their new values and the next version. All others keep
what they had. -/
theorem records_install (s : VersionedStore) (changes : Changes) (key : Bytes) :
    (s.install changes).records[key]? =
      match changes.last key with
      | some value => some ⟨value, s.version + 1⟩
      | none => s.records[key]? :=
  records_insert_all (s.version + 1) changes s.records key

theorem contents_install (s : VersionedStore) (changes : Changes) :
    (s.install changes).contents = changes.on s.contents := by
  funext key
  rw [Changes.on_apply, contents, records_install]
  cases changes.last key <;> rfl

/-- A changed key is newer than every snapshot up to the version before. -/
theorem newerThan_install (s : VersionedStore) (changes : Changes) (key : Bytes) (snapshot : Nat) :
    (s.install changes).newerThan key snapshot =
      if (changes.last key).isSome then decide (snapshot ≤ s.version)
      else s.newerThan key snapshot := by
  rw [newerThan, records_install]
  cases changes.last key with
  | none => rfl
  | some value => exact decide_eq_decide.mpr Nat.lt_succ_iff

/-- A key that is not newer than a snapshot is not newer than a later one. -/
theorem newerThan_mono (s : VersionedStore) (key : Bytes) {earlier later : Nat}
    (hLe : earlier ≤ later) (h : s.newerThan key earlier = false) :
    s.newerThan key later = false := by
  rw [newerThan] at h ⊢
  cases hRecord : s.records[key]? with
  | none => rfl
  | some record =>
      simp only [hRecord, decide_eq_false_iff_not, Nat.not_lt] at h ⊢
      exact Nat.le_trans h hLe

/-- A transaction finds what the store holds, unless the key is newer than its snapshot. -/
theorem valueAt_eq (s : VersionedStore) (key : Bytes) (snapshot : Nat) :
    s.valueAt key snapshot = if s.newerThan key snapshot then none else s.contents key := by
  rw [valueAt, newerThan, contents]
  cases hRecord : s.records[key]? with
  | none => rfl
  | some record =>
      by_cases hNewer : snapshot < record.version
      · simp [hNewer, Nat.not_le.mpr hNewer]
      · simp [hNewer, Nat.not_lt.mp hNewer]

/-- A drop either leaves the transaction alone or makes it forget the key's value. -/
theorem drop_cases (s : VersionedStore) (tx : OpenTransaction) (key : Bytes) :
    s.drop tx key = ({ tx with pending := tx.pending.insert key none }, .ok) ∨
      s.drop tx key = (tx, .valueNotFound) := by
  simp only [drop]
  cases tx.pending[key]? with
  | none => cases s.valueAt key tx.snapshot <;> simp
  | some own => cases own <;> simp

theorem verdict_invalid_iff {s : VersionedStore} {tx : OpenTransaction} :
    s.verdict tx = .invalidTx ↔ tx.failed = true := by
  rw [verdict]
  split_ifs with hFailed <;> simp [hFailed]

@[simp] theorem commit_status (s : VersionedStore) (tx : OpenTransaction) :
    (s.commit tx).1 = s.verdict tx := by
  simp only [commit]
  split <;> rfl

/-- A refused commit, and one that changes nothing, leave the store as it is. -/
theorem commit_unchanged (s : VersionedStore) (tx : OpenTransaction)
    (h : s.verdict tx ≠ .ok ∨ tx.pending.isEmpty = true) : (s.commit tx).2 = s := by
  simp only [commit]
  split
  · rename_i hInstalls
    rcases h with hRefused | hEmpty
    · exact absurd hInstalls.1 hRefused
    · rw [hEmpty] at hInstalls
      cases hInstalls.2
  · rfl

theorem commit_installed (s : VersionedStore) (tx : OpenTransaction)
    (hOk : s.verdict tx = .ok) (hPending : tx.pending.isEmpty = false) :
    (s.commit tx).2 = s.install tx.pending.toList := by
  simp [commit, hOk, hPending]

end VersionedStore

end StoreBench
