import Mathlib.Data.List.Dedup
import StoreBench.Proofs.Replay.Uninterrupted

/-! What a replay makes of a new store that was loaded with its sample data. Several pairs may have
one key, so pairs at different positions overwrite each other; the last one counts, and every key
counts once. -/
namespace StoreBench

/-- The value of the last pair with this key, if there is one. -/
def lastValue (pairs : List Pair) (key : Bytes) : Option Bytes :=
  (pairs.reverse.find? fun pair => pair.key = key).map Pair.value

/-- Whether the transaction puts anything. -/
def Transaction.writes (tx : Transaction) : Bool := tx.any fun cmd => cmd.operation = .put

/-- The pairs that the transactions put, in the order of the commands. -/
def putPairs (samples : SampleSet) (transactions : List Transaction) : List Pair :=
  transactions.flatten.filterMap fun cmd =>
    match cmd.operation with
    | .get => none
    | .put => samples[cmd.index]?

theorem lastValue_ne_none_iff (pairs : List Pair) (key : Bytes) :
    lastValue pairs key ≠ none ↔ key ∈ pairs.map Pair.key := by
  simp [lastValue]

/-- Only keys of the sample data are put. -/
theorem mem_samples_of_mem_putPairs {samples : SampleSet} {transactions : List Transaction}
    {pair : Pair} (h : pair ∈ putPairs samples transactions) : pair ∈ samples.toList := by
  obtain ⟨cmd, _, hPut⟩ := List.mem_filterMap.mp h
  cases hOperation : cmd.operation with
  | get => simp [hOperation] at hPut
  | put =>
      simp only [hOperation] at hPut
      exact Array.mem_toList_iff.mpr (Array.mem_of_getElem? hPut)

namespace Transaction

variable {samples : SampleSet}

/-- A transaction without a put changes nothing, and only such a one does. -/
theorem puts_ne_nil_iff {tx : Transaction} (hInRange : ∀ cmd ∈ tx, cmd.index < samples.size) :
    puts samples tx ≠ [] ↔ tx.writes = true := by
  rw [writes, List.any_eq_true, Ne, puts, List.filterMap_eq_nil_iff, not_forall]
  refine exists_congr fun cmd => ?_
  by_cases hMem : cmd ∈ tx
  · have hPair := Array.getElem?_eq_getElem (hInRange cmd hMem)
    cases cmd.operation <;> simp [hMem, hPair]
  · simp [hMem]

theorem flatMap_puts (samples : SampleSet) (transactions : List Transaction) :
    transactions.flatMap (puts samples) =
      VersionedStore.loads (putPairs samples transactions) := by
  rw [VersionedStore.loads, putPairs, List.map_filterMap, List.flatMap_def, List.filterMap_flatten]
  congr 1
  refine List.map_congr_left fun tx _ => List.filterMap_congr fun cmd _ => ?_
  cases cmd.operation <;> rfl

end Transaction

namespace VersionedStore

theorem last_loads (pairs : List Pair) (key : Bytes) :
    (loads pairs).last key = (lastValue pairs key).map some := by
  induction pairs using List.reverseRecOn with
  | nil => rfl
  | append_singleton pairs pair ih =>
      rw [loads, List.map_append, List.map_singleton, Changes.last_snoc, ← loads, ih, lastValue,
        lastValue, List.reverse_concat, List.find?_cons]
      by_cases hKey : pair.key = key
      · simp [hKey]
      · simp [hKey, Ne.symm hKey]

/-- Pairs that are put hide what the store held under their keys. -/
theorem on_loads (pairs : List Pair) (contents : Contents) (key : Bytes) :
    (loads pairs).on contents key = (lastValue pairs key).or (contents key) := by
  rw [Changes.on_apply, last_loads]
  cases lastValue pairs key <;> rfl

/-- The keys that have a value. -/
def liveKeys (s : VersionedStore) : List Bytes :=
  (s.records.toList.filter fun entry => entry.2.value.isSome).map Prod.fst

theorem length_liveKeys (s : VersionedStore) : s.liveKeys.length = s.live := List.length_map ..

theorem nodup_liveKeys (s : VersionedStore) : s.liveKeys.Nodup := by
  rw [liveKeys, List.Nodup, List.pairwise_map]
  refine (s.records.distinct_keys_toList.filter _).imp ?_
  intro entry other hApart hSame
  exact hApart (Std.LawfulEqOrd.compare_eq_iff_eq.mpr hSame)

theorem mem_liveKeys_iff (s : VersionedStore) (key : Bytes) :
    key ∈ s.liveKeys ↔ s.contents key ≠ none := by
  rw [liveKeys, contents, List.mem_map]
  constructor
  · rintro ⟨⟨_, record⟩, hEntry, rfl⟩
    obtain ⟨hRecord, hValue⟩ := List.mem_filter.mp hEntry
    rw [Std.TreeMap.mem_toList_iff_getElem?_eq_some] at hRecord
    rw [hRecord]
    exact Option.isSome_iff_ne_none.mp hValue
  · intro hSome
    obtain ⟨value, hValue⟩ := Option.ne_none_iff_exists'.mp hSome
    obtain ⟨record, hRecord, hHeld⟩ := Option.bind_eq_some_iff.mp hValue
    refine ⟨(key, record), List.mem_filter.mpr ⟨?_, by simp [hHeld]⟩, rfl⟩
    exact Std.TreeMap.mem_toList_iff_getElem?_eq_some.mpr hRecord

/-- A key that has a value is counted once. -/
theorem live_eq (s : VersionedStore) (keys : List Bytes)
    (h : ∀ key, s.contents key ≠ none ↔ key ∈ keys) : s.live = keys.dedup.length := by
  have hSame : s.liveKeys.Perm keys.dedup := by
    refine (List.perm_ext_iff_of_nodup s.nodup_liveKeys keys.nodup_dedup).mpr fun key => ?_
    rw [mem_liveKeys_iff, h, List.mem_dedup]
  rw [← length_liveKeys, hSame.length_eq]

/-- A new store that was loaded with sample data and is then used by one replay only commits every
transaction at its first attempt. Afterwards it holds the keys of the sample data, each with the
value that was put last, and else with the last one loaded. Loading makes a version if there is a
pair, and a transaction does if it has a put. No list in memory has more transactions than a word
can count. -/
theorem populated_replay_perfect (samples : SampleSet) {transactions : List Transaction}
    (hInRange : ∀ tx ∈ transactions, ∀ cmd ∈ tx, cmd.index < samples.size)
    (hWords : transactions.length ≤ wordMax) (retries : Nat) :
    ∃ (populated : VersionedStore) (tally : Tally) (reached : VersionedStore),
      populate {} samples = (.ok, populated) ∧
      (calls.replay samples transactions retries {}).on populated = (.ok tally, reached) ∧
      tally.counters =
        { assigned := transactions.length
          attempts := transactions.length
          committed := transactions.length } ∧
      reached.version =
        transactions.countP Transaction.writes + (if samples.isEmpty then 0 else 1) ∧
      reached.live = (samples.toList.map Pair.key).dedup.length ∧
      ∀ key, reached.contents key =
        (lastValue (putPairs samples transactions) key).or (lastValue samples.toList key) := by
  obtain ⟨hOk, hServes, hLoaded⟩ := populate_serves Current.empty samples
  obtain ⟨tally, reached, hRan, hTally, _, hContents, hVersion⟩ :=
    hServes.replay hInRange hWords retries
  have hEmpty : contents {} = fun _ => none := by
    funext key
    simp [contents]
  have hHeld (key : Bytes) : reached.contents key =
      (lastValue (putPairs samples transactions) key).or (lastValue samples.toList key) := by
    rw [hContents, Transaction.flatMap_puts, on_loads, hLoaded.contents, on_loads, hEmpty,
      Option.or_none]
  refine ⟨_, tally, reached, Prod.ext hOk rfl, hRan, hTally, ?_, ?_, hHeld⟩
  · have hWrites : (transactions.countP fun tx => Transaction.puts samples tx ≠ []) =
        transactions.countP Transaction.writes := by
      refine List.countP_congr fun tx hTx => ?_
      rw [decide_eq_true_eq]
      exact Transaction.puts_ne_nil_iff (hInRange tx hTx)
    have hNone : loads samples.toList = [] ↔ samples.isEmpty = true := by simp [loads]
    rw [hVersion, hLoaded.version, hWrites]
    simp only [hNone]
    omega
  · refine reached.live_eq _ fun key => ?_
    rw [hHeld, ← lastValue_ne_none_iff, Ne, Option.or_eq_none_iff, not_and_or, or_iff_right_of_imp]
    intro hPut
    obtain ⟨pair, hPair, rfl⟩ := List.mem_map.mp ((lastValue_ne_none_iff _ _).mp hPut)
    exact (lastValue_ne_none_iff _ _).mpr
      (List.mem_map_of_mem (mem_samples_of_mem_putPairs hPair))

/-- The first and the last pair have one key. Loading leaves the value of the last pair, and the
second transaction puts that of the first one; the other transaction only reads. -/
theorem populated_replay_perfect_overwritten :
    let samples : SampleSet := #[⟨[1], [10]⟩, ⟨[2], [20]⟩, ⟨[1], [30]⟩]
    let transactions : List Transaction := [[⟨.get, 0⟩, ⟨.get, 1⟩], [⟨.get, 2⟩, ⟨.put, 0⟩]]
    (∀ tx ∈ transactions, ∀ cmd ∈ tx, cmd.index < samples.size) ∧
      transactions.length ≤ wordMax ∧
      ∃ (populated : VersionedStore) (tally : Tally) (reached : VersionedStore),
        populate {} samples = (.ok, populated) ∧
        (calls.replay samples transactions 3 {}).on populated = (.ok tally, reached) ∧
        tally.counters = { assigned := 2, attempts := 2, committed := 2 } ∧
        reached.version = 2 ∧ reached.live = 2 ∧
        reached.contents [1] = some [10] ∧ reached.contents [2] = some [20] ∧
        reached.contents [3] = none := by
  intro samples transactions
  have hInRange : ∀ tx ∈ transactions, ∀ cmd ∈ tx, cmd.index < samples.size := by decide
  have hWords : transactions.length ≤ wordMax := by decide
  obtain ⟨populated, tally, reached, hPopulated, hRan, hTally, hVersion, hLive, hHeld⟩ :=
    populated_replay_perfect samples hInRange hWords 3
  refine ⟨hInRange, hWords, populated, tally, reached, hPopulated, hRan, hTally, hVersion, ?_, ?_⟩
  · rw [hLive]
    decide
  · rw [hHeld, hHeld, hHeld]
    decide

end VersionedStore

end StoreBench
