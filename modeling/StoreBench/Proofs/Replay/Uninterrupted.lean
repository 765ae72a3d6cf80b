import StoreBench.Proofs.Replay.Course
import StoreBench.Proofs.Store.Changes

/-! Replay on a store that nobody else uses. Nothing that a transaction looks at is newer than its
snapshot, so every attempt commits, and the store is left as the puts leave it. -/
namespace StoreBench

namespace Changes

/-- No key is dropped. -/
def Puts (changes : Changes) : Prop := ∀ change ∈ changes, change.2 ≠ none

/-- A key that had a value keeps one, and so has a key that is put. -/
theorem Puts.on_ne_none {changes : Changes} (h : changes.Puts) {contents : Contents} {key : Bytes}
    (hKey : contents key ≠ none ∨ ∃ change ∈ changes, change.1 = key) :
    changes.on contents key ≠ none := by
  rw [on_apply]
  cases hLast : changes.last key with
  | none =>
      rcases hKey with hBefore | hPut
      · exact hBefore
      · rw [← last_isSome_iff, hLast] at hPut
        cases hPut
  | some value =>
      have hMem : (key, value) ∈ changes.reverse := by
        obtain ⟨_, _, hSplit, _⟩ := List.lookup_eq_some_iff.mp hLast
        simp [hSplit]
      exact h _ (List.mem_reverse.mp hMem)

theorem on_append (changes more : Changes) (contents : Contents) :
    on (changes ++ more) contents = more.on (changes.on contents) := by
  simp [on]

end Changes

namespace VersionedStore

variable {s : VersionedStore}

/-- No record is newer than the store. -/
def Current (s : VersionedStore) : Prop := ∀ key, s.newerThan key s.version = false

theorem Current.empty : Current {} := by
  intro key
  simp [newerThan]

theorem Current.install (h : s.Current) (changes : Changes) : (s.install changes).Current := by
  intro key
  have hVersion : (s.install changes).version = s.version + 1 := rfl
  rw [newerThan_install, hVersion]
  split
  · simp
  · exact s.newerThan_mono key (Nat.le_succ _) (h key)

/-- This is the store after a transaction that nobody disturbed and that made these puts. Without a
put there is no new version. -/
structure Leaves (s : VersionedStore) (puts : Changes) (reached : VersionedStore) : Prop where
  current : reached.Current
  contents : reached.contents = puts.on s.contents
  version : reached.version = s.version + if puts = [] then 0 else 1

/-- A handle of a transaction that began on the store as it still is, and has made these puts. -/
structure Uninterrupted (s : VersionedStore) (puts : Changes) (handle : OpenTransaction) :
    Prop where
  snapshot : handle.snapshot = s.version
  failed : handle.failed = false
  pending : ∀ key, handle.pending[key]? = puts.last key

namespace Uninterrupted

variable {puts : Changes} {handle : OpenTransaction}

theorem start (s : VersionedStore) : s.Uninterrupted [] s.start where
  snapshot := rfl
  failed := rfl
  pending key := by simp [VersionedStore.start]

theorem read (h : s.Uninterrupted puts handle) (hCurrent : s.Current) (key : Bytes) :
    s.Uninterrupted puts (s.read handle key).1 ∧
      (s.read handle key).2 = (puts.on s.contents key, found (puts.on s.contents key)) := by
  have hValue : s.valueAt key handle.snapshot = s.contents key := by
    rw [valueAt_eq, h.snapshot, hCurrent key, if_neg Bool.false_ne_true]
  rw [Changes.on_apply, VersionedStore.read, h.pending]
  cases puts.last key with
  | some own => exact ⟨h, rfl⟩
  | none =>
      dsimp only
      rw [hValue]
      exact ⟨⟨h.snapshot, h.failed, h.pending⟩, rfl⟩

theorem write (h : s.Uninterrupted puts handle) (hCurrent : s.Current) (key value : Bytes) :
    s.Uninterrupted (puts ++ [(key, some value)]) (s.write handle key value).1 ∧
      (s.write handle key value).2 = .ok := by
  have hNewer : s.newerThan key handle.snapshot = false := by
    rw [h.snapshot]
    exact hCurrent key
  rw [VersionedStore.write, hNewer, if_neg Bool.false_ne_true]
  refine ⟨⟨h.snapshot, h.failed, fun other => ?_⟩, rfl⟩
  rw [getElem?_insert_eq, h.pending, Changes.last_snoc]

theorem verdict (h : s.Uninterrupted puts handle) (hCurrent : s.Current) :
    s.verdict handle = .ok := by
  have hPending : (handle.pending.toList.any fun change =>
      s.newerThan change.1 handle.snapshot) = false := by
    simp [h.snapshot, hCurrent _]
  have hReads : (handle.reads.any fun key => s.newerThan key handle.snapshot) = false := by
    simp [h.snapshot, hCurrent _]
  simp [VersionedStore.verdict, h.failed, hPending, hReads]

/-- Nothing is pending exactly if nothing was put. -/
theorem pending_isEmpty_iff (h : s.Uninterrupted puts handle) :
    handle.pending.isEmpty = true ↔ puts = [] := by
  rw [Std.TreeMap.isEmpty_iff_forall_not_mem]
  constructor
  · intro hNone
    rw [List.eq_nil_iff_forall_not_mem]
    intro change hChange
    have hLast := (puts.last_isSome_iff change.1).mpr ⟨change, hChange, rfl⟩
    rw [← h.pending, Std.TreeMap.isSome_getElem?_iff_mem] at hLast
    exact hNone change.1 hLast
  · rintro rfl key hKey
    rw [← Std.TreeMap.isSome_getElem?_iff_mem, h.pending] at hKey
    cases hKey

/-- The commit makes the puts. -/
theorem commit (h : s.Uninterrupted puts handle) (hCurrent : s.Current) :
    (s.commit handle).1 = .ok ∧ s.Leaves puts (s.commit handle).2 := by
  have hOk := h.verdict hCurrent
  refine ⟨by rw [commit_status, hOk], ?_⟩
  by_cases hNone : puts = []
  · rw [s.commit_unchanged handle (.inr (h.pending_isEmpty_iff.mpr hNone))]
    subst hNone
    exact ⟨hCurrent, rfl, rfl⟩
  · have hSome : handle.pending.isEmpty = false := by
      rw [← Bool.not_eq_true, h.pending_isEmpty_iff]
      exact hNone
    rw [s.commit_installed handle hOk hSome]
    refine ⟨hCurrent.install _, ?_, by rw [if_neg hNone]; rfl⟩
    funext key
    rw [contents_install, Changes.on_apply, Changes.on_apply, Changes.last_toList, h.pending]

end Uninterrupted

/-- The store holds a value for every key of the sample data, and nobody is ahead of it. -/
structure Serves (s : VersionedStore) (samples : SampleSet) : Prop where
  current : s.Current
  present : ∀ pair ∈ samples, s.contents pair.key ≠ none

/-- The pairs as puts. -/
def loads (pairs : List Pair) : Changes := pairs.map fun pair => (pair.key, some pair.value)

theorem loads_puts (pairs : List Pair) : (loads pairs).Puts := by
  intro change hChange
  obtain ⟨pair, _, rfl⟩ := List.mem_map.mp hChange
  exact Option.some_ne_none _

/-- Loading sample data, with keys that may occur more than once, is answered OK. -/
theorem populate_serves (hCurrent : s.Current) (samples : SampleSet) :
    (s.populate samples).1 = .ok ∧ (s.populate samples).2.Serves samples ∧
      s.Leaves (loads samples.toList) (s.populate samples).2 := by
  have hWrites (pairs : List Pair) (puts : Changes) (handle : OpenTransaction)
      (h : s.Uninterrupted puts handle) :
      s.Uninterrupted (puts ++ loads pairs)
        (pairs.foldl (fun handle pair => (s.write handle pair.key pair.value).1) handle) := by
    induction pairs generalizing puts handle with
    | nil => simpa [loads] using h
    | cons pair rest ih =>
        have hRest := ih _ _ (h.write hCurrent pair.key pair.value).1
        rwa [List.append_assoc] at hRest
  have hHandle := hWrites samples.toList [] s.start (.start s)
  have hPopulate : s.populate samples = s.commit (samples.toList.foldl
      (fun handle pair => (s.write handle pair.key pair.value).1) s.start) := by
    rw [populate, apply, List.foldl_map]
  rw [List.nil_append] at hHandle
  obtain ⟨hOk, hLeaves⟩ := hHandle.commit hCurrent
  rw [hPopulate]
  refine ⟨hOk, ⟨hLeaves.current, fun pair hPair => ?_⟩, hLeaves⟩
  rw [hLeaves.contents]
  have hPut : ∃ change ∈ loads samples.toList, change.1 = pair.key :=
    ⟨_, List.mem_map_of_mem (Array.mem_toList_iff.mpr hPair), rfl⟩
  exact (loads_puts _).on_ne_none (.inr hPut)

end VersionedStore

/-- What a transaction puts, in the order of its commands. -/
def Transaction.puts (samples : SampleSet) (tx : Transaction) : Changes :=
  tx.filterMap fun cmd =>
    match cmd.operation with
    | .get => none
    | .put => samples[cmd.index]?.map fun pair => (pair.key, some pair.value)

theorem Transaction.puts_puts (samples : SampleSet) (tx : Transaction) :
    (puts samples tx).Puts := by
  intro change hChange
  obtain ⟨cmd, _, hPut⟩ := List.mem_filterMap.mp hChange
  cases hOperation : cmd.operation with
  | get => simp [hOperation] at hPut
  | put =>
      simp only [hOperation, Option.map_eq_some_iff] at hPut
      obtain ⟨pair, _, rfl⟩ := hPut
      exact Option.some_ne_none _

namespace VersionedStore

open Transaction (puts puts_puts)

variable {s : VersionedStore} {samples : SampleSet} {changes : Changes} {handle : OpenTransaction}

/-- No command is answered with a miss. -/
theorem Uninterrupted.command (h : s.Uninterrupted changes handle) (hPuts : changes.Puts)
    (hServes : s.Serves samples) {cmd : Command} (hInRange : cmd.index < samples.size) :
    ∃ next, (calls.command samples (handle, {}) cmd).on s = (.ok (next, {}), s) ∧
      s.Uninterrupted (changes ++ puts samples [cmd]) next := by
  have hPair : samples[cmd.index]? = some samples[cmd.index] :=
    Array.getElem?_eq_getElem hInRange
  let pair := samples[cmd.index]
  rw [Store.command, hPair]
  cases hOperation : cmd.operation with
  | get =>
      obtain ⟨hRead, hAnswer⟩ := h.read hServes.current pair.key
      have hFound : found (changes.on s.contents pair.key) = .ok := by
        rw [found_eq_ok_iff]
        exact hPuts.on_ne_none (.inl (hServes.present pair (Array.getElem_mem hInRange)))
      have hStatus : (s.read handle pair.key).2.2 = .ok := by rw [hAnswer, hFound]
      have hRan : (calls.read handle pair.key).on s = (.ok (s.read handle pair.key), s) := rfl
      refine ⟨(s.read handle pair.key).1, ?_, ?_⟩
      · dsimp only
        rw [Effect.on_bind_ok hRan]
        simp only [hStatus]
        rfl
      · simpa [puts, hOperation] using hRead
  | put =>
      obtain ⟨hWrite, hStatus⟩ := h.write hServes.current pair.key pair.value
      have hRan : (calls.write handle pair.key pair.value).on s =
          (.ok (s.write handle pair.key pair.value), s) := rfl
      refine ⟨(s.write handle pair.key pair.value).1, ?_, ?_⟩
      · dsimp only
        rw [Effect.on_bind_ok hRan]
        simp only [hStatus]
        rfl
      · simpa [puts, hOperation, hPair] using hWrite

theorem Uninterrupted.commands (h : s.Uninterrupted changes handle) (hPuts : changes.Puts)
    (hServes : s.Serves samples) {tx : Transaction}
    (hInRange : ∀ cmd ∈ tx, cmd.index < samples.size) :
    ∃ next, (tx.foldlM (calls.command samples) (handle, ({} : Attempt))).on s =
        (.ok (next, {}), s) ∧
      s.Uninterrupted (changes ++ puts samples tx) next := by
  induction tx generalizing changes handle with
  | nil => exact ⟨handle, rfl, by simpa [puts] using h⟩
  | cons cmd rest ih =>
      obtain ⟨hFirst, hRest⟩ := List.forall_mem_cons.mp hInRange
      obtain ⟨next, hRan, hNext⟩ := h.command hPuts hServes hFirst
      have hMore : (changes ++ puts samples [cmd]).Puts := by
        intro change hChange
        rcases List.mem_append.mp hChange with hBefore | hPut
        · exact hPuts change hBefore
        · exact puts_puts samples [cmd] change hPut
      obtain ⟨last, hRanRest, hLast⟩ := ih hNext hMore hRest
      refine ⟨last, ?_, ?_⟩
      · rw [List.foldlM_cons, Effect.on_bind_ok hRan, hRanRest]
      · rwa [List.append_assoc, puts, puts, ← List.filterMap_append] at hLast

/-- An attempt at a transaction commits, and makes its puts. -/
theorem Serves.attempt (h : s.Serves samples) {tx : Transaction}
    (hInRange : ∀ cmd ∈ tx, cmd.index < samples.size) :
    ∃ reached, (calls.attempt samples tx).on s = (.ok { outcome := some .ok }, reached) ∧
      reached.Serves samples ∧ s.Leaves (puts samples tx) reached := by
  have hNone : Changes.Puts [] := fun _ hChange => nomatch hChange
  obtain ⟨handle, hRan, hHandle⟩ := (Uninterrupted.start s).commands hNone h hInRange
  rw [List.nil_append] at hHandle
  obtain ⟨hOk, hLeaves⟩ := hHandle.commit h.current
  refine ⟨(s.commit handle).2, ?_, ⟨hLeaves.current, fun pair hPair => ?_⟩, hLeaves⟩
  · have hStart : calls.start.on s = (.ok s.start, s) := rfl
    have hDoomed : (calls.doomed handle).on s = (.ok false, s) := by
      rw [← hHandle.failed]
      rfl
    have hCommit : (calls.commit handle).on s = (.ok .ok, (s.commit handle).2) := by
      rw [← hOk]
      rfl
    rw [Store.attempt, Effect.on_bind_ok hStart, Effect.on_bind_ok hRan]
    dsimp only
    rw [Effect.on_bind_ok hDoomed, if_neg Bool.false_ne_true, Effect.on_bind_ok hCommit]
    rfl
  · rw [hLeaves.contents]
    exact (puts_puts samples tx).on_ne_none (.inl (h.present pair hPair))

end VersionedStore

/-- The tallies of this many transactions that were committed at the first attempt. -/
def Counters.perfect (transactions : Nat) : Counters :=
  { assigned := transactions, attempts := transactions, committed := transactions }

theorem Counters.perfect_fits {transactions : Nat} (h : transactions ≤ wordMax) :
    (perfect transactions).fits = true := by
  simp [perfect, fits, named, h]

/-- One more transaction that is committed at its first attempt. -/
theorem Course.made_cons_committed {σ : Type} {last : Try σ} {course : Course σ}
    {transactions : Nat} (hLast : last.attempt = { outcome := some .ok })
    (hMade : course.made = .perfect transactions) :
    Course.made ([last] :: course) = .perfect (transactions + 1) := by
  have hLength : course.length = transactions := by
    rw [← course.made_assigned, hMade]
    rfl
  have hTally : Tries.tally [last] = { attempts := 1, committed := 1 } := by
    rw [Tries.tally_succeeded (by rw [hLast]; rfl), hLast]
    rfl
  have hFirst : Course.made ([last] :: course) =
      { assigned := 1, attempts := 1, committed := 1 } + course.made := by
    rw [made, made, tally_cons, hTally, List.length_cons, ← add_assoc, ← add_assoc]
    congr 1
    simp [Counters.add_def, Counters.plus, Nat.add_comm]
  rw [hFirst, hMade]
  simp [Counters.perfect, Counters.add_def, Counters.plus, Nat.add_comm]

namespace VersionedStore

variable {s : VersionedStore} {samples : SampleSet}

/-- A replay takes one attempt for each transaction, and each of them that puts something makes a
version. -/
theorem Serves.replayed (h : s.Serves samples) {transactions : List Transaction}
    (hInRange : ∀ tx ∈ transactions, ∀ cmd ∈ tx, cmd.index < samples.size) (retries : Nat) :
    ∃ course reached, calls.Replayed samples retries transactions s course reached ∧
      course.made = .perfect transactions.length ∧ reached.Serves samples ∧
      reached.contents =
        Changes.on (transactions.flatMap (Transaction.puts samples)) s.contents ∧
      reached.version =
        s.version + transactions.countP fun tx => Transaction.puts samples tx ≠ [] := by
  induction transactions generalizing s with
  | nil => exact ⟨[], s, .nil s, rfl, h, rfl, rfl⟩
  | cons tx rest ih =>
      obtain ⟨hFirst, hRest⟩ := List.forall_mem_cons.mp hInRange
      obtain ⟨middle, hRan, hMiddle, hLeaves⟩ := h.attempt hFirst
      obtain ⟨course, reached, hReplayed, hMade, hReached, hLast, hVersion⟩ := ih hMiddle hRest
      refine ⟨_, reached, .cons (.succeeded hRan rfl) hReplayed, ?_, hReached, ?_, ?_⟩
      · exact Course.made_cons_committed rfl hMade
      · rw [List.flatMap_cons, Changes.on_append, ← hLeaves.contents, hLast]
      · have hOwn : (if Transaction.puts samples tx = [] then 0 else 1) =
            if decide (Transaction.puts samples tx ≠ []) then 1 else 0 := by
          split <;> simp [*]
        rw [hVersion, hLeaves.version, List.countP_cons, hOwn]
        omega

/-- A replay counts so, if its transactions can be counted. -/
theorem Serves.replay (h : s.Serves samples) {transactions : List Transaction}
    (hInRange : ∀ tx ∈ transactions, ∀ cmd ∈ tx, cmd.index < samples.size)
    (hWords : transactions.length ≤ wordMax) (retries : Nat) :
    ∃ (tally : Tally) (reached : VersionedStore),
      (calls.replay samples transactions retries {}).on s = (.ok tally, reached) ∧
      tally.counters = .perfect transactions.length ∧ reached.Serves samples ∧
      reached.contents =
        Changes.on (transactions.flatMap (Transaction.puts samples)) s.contents ∧
      reached.version =
        s.version + transactions.countP fun tx => Transaction.puts samples tx ≠ [] := by
  obtain ⟨course, reached, hReplayed, hMade, hReached⟩ := h.replayed hInRange retries
  obtain ⟨tally, hRan, hTally⟩ := hReplayed.counted (hMade ▸ Counters.perfect_fits hWords)
  exact ⟨tally, reached, hRan, hTally.trans hMade, hReached⟩

end VersionedStore

end StoreBench
