import StoreBench.Proofs.Store.Trace

/-! The log of a store: the transactions that committed, in commit order. A store that grew by these
commits knows only the newest record of each key. What it still tells about the past of a key is
whether a commit after a given one touched it. -/
namespace StoreBench

/-- Contents after these transactions and no others: what each of them had pending when it
committed, applied to the empty contents in commit order. -/
def contentsAfter (log : List Traced) : Contents :=
  log.foldl (fun contents tx => Changes.on tx.handle.pending.toList contents) fun _ => none

/-- Whether one of these transactions wrote or dropped the key. -/
def touched (log : List Traced) (key : Bytes) : Bool :=
  log.any fun tx => tx.handle.pending.contains key

/-- The transactions that changed something. The n-th of them made version n. -/
def numbered (log : List Traced) : List Traced := log.filter fun tx => !tx.handle.pending.isEmpty

/-- The store that these transactions leave behind when they change it one after the other. -/
def storeAfter (log : List Traced) : VersionedStore :=
  (numbered log).foldl (fun s tx => s.install tx.handle.pending.toList) {}

/-- What a transaction that began after `began` commits finds of a key in the store. A key that a
later commit touched is hidden from it. -/
def seen (log : List Traced) (began : Nat) (key : Bytes) : Option Bytes :=
  if touched (log.drop began) key then none else contentsAfter (log.take began) key

@[simp] theorem numbered_append (log more : List Traced) :
    numbered (log ++ more) = numbered log ++ numbered more := List.filter_append ..

theorem numbered_take_length (log : List Traced) (began : Nat) :
    (numbered (log.take began)).length ≤ (numbered log).length :=
  ((List.take_sublist began log).filter _).length_le

variable {log more : List Traced} {tx : Traced} {key : Bytes}

@[simp] theorem touched_nil : touched [] key = false := rfl

@[simp] theorem touched_append :
    touched (log ++ more) key = (touched log key || touched more key) := List.any_append

@[simp] theorem touched_singleton : touched [tx] key = tx.handle.pending.contains key := by
  simp [touched]

theorem touched_iff : touched log key = true ↔ ∃ tx ∈ log, key ∈ tx.handle.pending := by
  simp [touched]

theorem touched_of_subset (hSubset : log ⊆ more) (hTouched : touched log key = true) :
    touched more key = true := by
  obtain ⟨tx, hMem, hKey⟩ := touched_iff.mp hTouched
  exact touched_iff.mpr ⟨tx, hSubset hMem, hKey⟩

theorem contentsAfter_snoc_apply : contentsAfter (log ++ [tx]) key =
    (tx.handle.pending[key]?).getD (contentsAfter log key) := by
  rw [← Changes.last_toList, ← Changes.on_apply]
  simp [contentsAfter]

/-- Commits that do not touch a key leave its value alone. -/
theorem contentsAfter_append (hUntouched : touched more key = false) :
    contentsAfter (log ++ more) key = contentsAfter log key := by
  induction more using List.reverseRecOn with
  | nil => rw [List.append_nil]
  | append_singleton more tx ih =>
      rw [touched_append, touched_singleton, Bool.or_eq_false_iff] at hUntouched
      rw [← List.append_assoc, contentsAfter_snoc_apply, ih hUntouched.1]
      simp [Std.TreeMap.getElem?_eq_none_of_contains_eq_false hUntouched.2]

theorem contentsAfter_take (began : Nat) (hUntouched : touched (log.drop began) key = false) :
    contentsAfter (log.take began) key = contentsAfter log key := by
  conv => rhs; rw [← List.take_append_drop began log]
  exact (contentsAfter_append hUntouched).symm

/-- A key that is not hidden is found with its newest value. -/
theorem seen_eq (began : Nat) (hUntouched : touched (log.drop began) key = false) :
    seen log began key = contentsAfter log key := by
  rw [seen, hUntouched]
  exact contentsAfter_take began hUntouched

theorem numbered_snoc_empty (hPending : tx.handle.pending.isEmpty = true) :
    numbered (log ++ [tx]) = numbered log := by
  simp [numbered, hPending]

theorem numbered_snoc (hPending : tx.handle.pending.isEmpty = false) :
    numbered (log ++ [tx]) = numbered log ++ [tx] := by
  simp [numbered, hPending]

/-- Transactions that changed nothing can be left out. -/
theorem touched_numbered : touched (numbered log) key = touched log key := by
  induction log with
  | nil => rfl
  | cons tx rest ih =>
      simp only [touched, numbered, List.filter_cons] at ih ⊢
      cases hPending : tx.handle.pending.isEmpty with
      | true =>
          have hAbsent := Std.TreeMap.isEmpty_iff_forall_contains.mp hPending key
          simpa [hAbsent] using ih
      | false => simp [ih]

theorem contentsAfter_numbered : contentsAfter (numbered log) = contentsAfter log := by
  induction log using List.reverseRecOn with
  | nil => rfl
  | append_singleton log tx ih =>
      funext key
      cases hPending : tx.handle.pending.isEmpty with
      | true =>
          have hAbsent := Std.TreeMap.isEmpty_iff_forall_contains.mp hPending key
          rw [numbered_snoc_empty hPending, ih, contentsAfter_append]
          rw [touched_singleton, hAbsent]
      | false =>
          rw [numbered_snoc hPending, contentsAfter_snoc_apply, contentsAfter_snoc_apply, ih]

theorem numbered_take (log : List Traced) (began : Nat) :
    (numbered log).take (numbered (log.take began)).length = numbered (log.take began) := by
  conv => lhs; rw [← List.take_append_drop began log, numbered_append]
  rw [List.take_append_drop, List.take_left]

theorem numbered_drop (log : List Traced) (began : Nat) :
    (numbered log).drop (numbered (log.take began)).length = numbered (log.drop began) := by
  conv => lhs; rw [← List.take_append_drop began log, numbered_append]
  rw [List.take_append_drop, List.drop_left]

/-- The store is what the commits of the log made of the empty one. `newer` is all that it keeps of
the order of the commits. -/
structure Reflects (log : List Traced) (s : VersionedStore) : Prop where
  version : s.version = (numbered log).length
  newer : ∀ began ≤ log.length, ∀ key,
    s.newerThan key (numbered (log.take began)).length = touched (log.drop began) key
  contents : s.contents = contentsAfter log

namespace Reflects

variable {s : VersionedStore}

theorem empty : Reflects [] {} where
  version := rfl
  newer := by
    intro began _ key
    simp [VersionedStore.newerThan]
  contents := by
    funext key
    simp [VersionedStore.contents, contentsAfter]

/-- No record is newer than the store. -/
theorem not_newer (h : Reflects log s) (key : Bytes) : s.newerThan key s.version = false := by
  have hNewer := h.newer log.length (Nat.le_refl _) key
  rwa [List.take_length, List.drop_length, ← h.version] at hNewer

theorem valueAt (h : Reflects log s) {began : Nat} (hBegan : began ≤ log.length) (key : Bytes) :
    s.valueAt key (numbered (log.take began)).length = seen log began key := by
  rw [VersionedStore.valueAt_eq, h.newer began hBegan key, h.contents]
  cases hTouched : touched (log.drop began) key with
  | true => simp [seen, hTouched]
  | false => simpa using (seen_eq began hTouched).symm

/-- The part of `newer` that is left to show when one more transaction has committed: what it
touched is newer than all snapshots before, and nothing is newer than the version it leads to. -/
theorem newer_snoc (hVersion : s.version = (numbered (log ++ [tx])).length)
    (hLatest : ∀ key, s.newerThan key s.version = false)
    (hEarlier : ∀ began ≤ log.length, ∀ key,
      s.newerThan key (numbered (log.take began)).length =
        (touched (log.drop began) key || tx.handle.pending.contains key)) :
    ∀ began ≤ (log ++ [tx]).length, ∀ key,
      s.newerThan key (numbered ((log ++ [tx]).take began)).length =
        touched ((log ++ [tx]).drop began) key := by
  intro began hBegan key
  rw [List.length_append, List.length_singleton] at hBegan
  by_cases hLast : began ≤ log.length
  · rw [List.take_append_of_le_length hLast, List.drop_append_of_le_length hLast,
      touched_append, touched_singleton]
    exact hEarlier began hLast key
  · have hAll : (log ++ [tx]).length ≤ began := by
      rw [List.length_append, List.length_singleton]
      omega
    rw [List.take_of_length_le hAll, List.drop_of_length_le hAll, ← hVersion]
    exact hLatest key

theorem commit_empty (h : Reflects log s) (hPending : tx.handle.pending.isEmpty = true) :
    Reflects (log ++ [tx]) s := by
  have hUntouched := Std.TreeMap.isEmpty_iff_forall_contains.mp hPending
  have hVersion : s.version = (numbered (log ++ [tx])).length := by
    rw [numbered_snoc_empty hPending, h.version]
  refine ⟨hVersion, newer_snoc hVersion h.not_newer ?_, ?_⟩
  · intro began hBegan key
    rw [h.newer began hBegan key, hUntouched, Bool.or_false]
  · funext key
    rw [h.contents, contentsAfter_append]
    rw [touched_singleton, hUntouched]

theorem commit_installed (h : Reflects log s) (hPending : tx.handle.pending.isEmpty = false) :
    Reflects (log ++ [tx]) (s.install tx.handle.pending.toList) := by
  have hVersion : (s.install tx.handle.pending.toList).version =
      (numbered (log ++ [tx])).length := by
    rw [numbered_snoc hPending, List.length_append, List.length_singleton, ← h.version,
      VersionedStore.install]
  refine ⟨hVersion, newer_snoc hVersion ?_ ?_, ?_⟩
  · intro key
    rw [VersionedStore.newerThan_install, Changes.last_toList]
    split
    · exact decide_eq_false (Nat.not_succ_le_self s.version)
    · exact s.newerThan_mono key (Nat.le_succ _) (h.not_newer key)
  · intro began hBegan key
    -- Every snapshot is at most the version before, so all changed keys are newer than it.
    have hSnapshot : (numbered (log.take began)).length ≤ s.version := by
      rw [h.version]
      exact numbered_take_length log began
    rw [VersionedStore.newerThan_install, Changes.last_toList,
      Std.TreeMap.isSome_getElem?_eq_contains]
    cases hTouched : tx.handle.pending.contains key with
    | true => simp [hSnapshot]
    | false => simpa using h.newer began hBegan key
  · funext key
    rw [VersionedStore.contents_install, h.contents, Changes.on_apply, Changes.last_toList,
      contentsAfter_snoc_apply]

/-- A commit that is answered OK makes the store reflect one transaction more. -/
theorem commit (h : Reflects log s) (hOk : s.verdict tx.handle = .ok) :
    Reflects (log ++ [tx]) (s.commit tx.handle).2 := by
  cases hPending : tx.handle.pending.isEmpty with
  | true =>
      rw [s.commit_unchanged tx.handle (Or.inr hPending)]
      exact h.commit_empty hPending
  | false =>
      rw [s.commit_installed tx.handle hOk hPending]
      exact h.commit_installed hPending

theorem storeAfter (log : List Traced) : Reflects log (storeAfter log) := by
  induction log using List.reverseRecOn with
  | nil => exact empty
  | append_singleton log tx ih =>
      cases hPending : tx.handle.pending.isEmpty with
      | true =>
          rw [StoreBench.storeAfter, numbered_snoc_empty hPending]
          exact ih.commit_empty hPending
      | false =>
          rw [StoreBench.storeAfter, numbered_snoc hPending, List.foldl_append, List.foldl_cons,
            List.foldl_nil]
          exact ih.commit_installed hPending

end Reflects

end StoreBench
