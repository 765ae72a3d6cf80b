import StoreBench.Proofs.Store.History
import StoreBench.Word

/-! What an open transaction can rely on, whether it will commit or not. Its reads show the contents
of one past version, and its commit is refused for a commit of others that touched a key which it
wrote or read, and for nothing else. -/
namespace StoreBench

namespace Faithful

variable {log : List Traced} {s : VersionedStore} {tx : Traced} {key : Bytes}

/-- Versions count the same commits as positions in the log. -/
theorem seen_eq_snapshot (h : Faithful log tx) (key : Bytes) :
    seen log tx.began key =
      if touched ((numbered log).drop tx.handle.snapshot) key then none
      else contentsAfter ((numbered log).take tx.handle.snapshot) key := by
  rw [h.snapshot, numbered_take, numbered_drop, touched_numbered, contentsAfter_numbered, seen]

theorem read_own (h : Faithful log tx) (hStore : Reflects log s) {own : Option Bytes}
    (hOwn : tx.handle.pending[key]? = some own) :
    (s.read tx.handle key).2 = (own, VersionedStore.found own) := by
  rw [h.read_answer hStore, view, ← h.pending, hOwn]
  rfl

theorem read_store (h : Faithful log tx) (hStore : Reflects log s)
    (hOwn : tx.handle.pending[key]? = none) :
    (s.read tx.handle key).2 =
      (seen log tx.began key, VersionedStore.found (seen log tx.began key)) := by
  rw [h.read_answer hStore, view, ← h.pending, hOwn]
  rfl

/-- Each answer of a commit has one cause. An earlier cause hides the later ones. -/
theorem verdict_iff (h : Faithful log tx) (hStore : Reflects log s) :
    let changed := ∃ key ∈ tx.handle.pending, touched (log.drop tx.began) key = true
    let read := ∃ key, ReadThrough tx.events key ∧ touched (log.drop tx.began) key = true
    (s.verdict tx.handle = .invalidTx ↔ Overtaken log tx) ∧
      (s.verdict tx.handle = .wwConflict ↔ ¬ Overtaken log tx ∧ changed) ∧
      (s.verdict tx.handle = .rwConflict ↔ ¬ Overtaken log tx ∧ ¬ changed ∧ read) ∧
      (s.verdict tx.handle = .ok ↔ ¬ Overtaken log tx ∧ ¬ changed ∧ ¬ read) := by
  classical
  intro changed read
  rw [h.verdict_eq hStore]
  by_cases hOvertaken : Overtaken log tx
  · simp [hOvertaken]
  · by_cases hChanged : changed
    · simp [hOvertaken, hChanged, changed]
    · by_cases hRead : read
      · simp [hOvertaken, hChanged, hRead, changed, read]
      · simp [hOvertaken, hChanged, hRead, changed, read]

end Faithful

namespace History

/-- A read shows the transaction's own change, and else the contents as they were when the version
was the one that the transaction began at. A key that a later version changed is not found. No read
shows a later value. -/
theorem reads_snapshot (actions : List Action) (name : String) (tx : Traced)
    (hOpen : (after actions).opened name = some tx) (key : Bytes) :
    let h := after actions
    let versions := numbered h.committed
    let began := tx.handle.snapshot
    let answer := (h.session.store.read tx.handle key).2
    let changedSince := touched (versions.drop began) key = true
    h.session.store.version = versions.length ∧
      began = (numbered (h.committed.take tx.began)).length ∧
      (∀ value, tx.handle.pending[key]? = some (some value) → answer = (some value, .ok)) ∧
      (tx.handle.pending[key]? = some none → answer = (none, .valueNotFound)) ∧
      (tx.handle.pending[key]? = none →
        (∀ value, answer = (some value, .ok) ↔
          contentsAfter (versions.take began) key = some value ∧ ¬ changedSince) ∧
        (answer = (none, .valueNotFound) ↔
          contentsAfter (versions.take began) key = none ∨ changedSince)) := by
  intro h versions began answer changedSince
  have hSound := sound_after actions
  have hFaithful := hSound.opened name tx hOpen
  refine ⟨hSound.store.version, hFaithful.snapshot, ?_, ?_, ?_⟩
  · intro value hOwn
    exact hFaithful.read_own hSound.store hOwn
  · intro hOwn
    exact hFaithful.read_own hSound.store hOwn
  · intro hOwn
    have hAnswer : answer = _ := hFaithful.read_store hSound.store hOwn
    rw [hAnswer, hFaithful.seen_eq_snapshot]
    cases hChanged : touched (versions.drop began) key with
    | true => simp [h, versions, began, changedSince, hChanged, VersionedStore.found]
    | false =>
        cases contentsAfter (versions.take began) key <;>
          simp [h, versions, began, changedSince, hChanged, VersionedStore.found]

/-- A later commit hides its key from a transaction that began before it; another key is read at
its old value. -/
theorem reads_snapshot_hidden :
    let run : List Action := [.start "first", .write "first" [1] [10], .write "first" [2] [20],
      .commit "first", .start "old", .start "new", .write "new" [1] [11], .commit "new"]
    let tx : Traced := { began := 1, events := [], handle := { snapshot := 1 } }
    (after run).opened "old" = some tx ∧
      ((after run).session.store.read tx.handle [1]).2 = (none, .valueNotFound) ∧
      ((after run).session.store.read tx.handle [2]).2 = (some [20], .ok) := by
  intro run tx
  have hOpen : (after run).opened "old" = some tx := rfl
  have hHidden := (reads_snapshot run "old" tx hOpen [1]).2.2.2.2 rfl
  have hSeen := (reads_snapshot run "old" tx hOpen [2]).2.2.2.2 rfl
  exact ⟨hOpen, hHidden.2.mpr (Or.inr rfl), (hSeen.1 [20]).mpr ⟨rfl, by decide⟩⟩

/-- The commit of an open transaction is refused for three reasons only, in this order: a write of
it came after a later commit had touched the key; a key that it changed has been touched since it
began; a key that it read in the store has been. A refused commit changes nothing, and neither does
one with no changes to make; all others make one new version. Its number fits in a machine word if
fewer commits were asked for than the largest word. -/
theorem commit_decided (actions : List Action) (name : String) (tx : Traced)
    (hOpen : (after actions).opened name = some tx) :
    let h := after actions
    let s := h.session.store
    let result := s.commit tx.handle
    let touchedSince (key : Bytes) := touched (h.committed.drop tx.began) key = true
    let overtaken := ∃ (moment : Nat) (key value : Bytes) (status : Status),
      .write moment key value status ∈ tx.events ∧
        touched ((h.committed.take moment).drop tx.began) key = true
    let changed := ∃ key ∈ tx.handle.pending, touchedSince key
    let read := ∃ key, ReadThrough tx.events key ∧ touchedSince key
    (result.1 = .invalidTx ↔ overtaken) ∧
      (result.1 = .wwConflict ↔ ¬ overtaken ∧ changed) ∧
      (result.1 = .rwConflict ↔ ¬ overtaken ∧ ¬ changed ∧ read) ∧
      (result.1 = .ok ↔ ¬ overtaken ∧ ¬ changed ∧ ¬ read) ∧
      (result.1 ≠ .ok ∨ tx.handle.pending.isEmpty = true → result.2 = s) ∧
      (result.1 = .ok ∧ tx.handle.pending.isEmpty = false → result.2.version = s.version + 1) ∧
      (actions.countP Action.isCommit < wordMax → s.version + 1 ≤ wordMax) := by
  intro h s result touchedSince overtaken changed read
  have hSound := sound_after actions
  have hStatus : result.1 = s.verdict tx.handle := s.commit_status tx.handle
  obtain ⟨hInvalid, hWrites, hReads, hOk⟩ :=
    (hSound.opened name tx hOpen).verdict_iff hSound.store
  rw [hStatus]
  refine ⟨hInvalid, hWrites, hReads, hOk, s.commit_unchanged tx.handle, ?_, ?_⟩
  · rintro ⟨hGranted, hPending⟩
    have hInstalled : result.2 = _ := s.commit_installed tx.handle hGranted hPending
    rw [hInstalled, VersionedStore.install]
  · intro hFew
    exact Nat.succ_le_of_lt (Nat.lt_of_le_of_lt (version_le actions) hFew)

/-- A late write dooms its transaction. -/
theorem commit_decided_overtaken :
    let run : List Action := [.start "old", .start "new", .write "new" [1] [11], .commit "new",
      .write "old" [1] [12]]
    let tx : Traced :=
      { began := 0, events := [.write 1 [1] [12] .valueNotFound],
        handle := { snapshot := 0, failed := true } }
    (after run).opened "old" = some tx ∧
      ((after run).session.store.commit tx.handle).1 = .invalidTx := by
  intro run tx
  have hOpen : (after run).opened "old" = some tx := rfl
  have hLate : Event.write 1 [1] [12] .valueNotFound ∈ tx.events := List.mem_singleton_self _
  exact ⟨hOpen, (commit_decided run "old" tx hOpen).1.mpr ⟨1, [1], [12], _, hLate, rfl⟩⟩

end History

end StoreBench
