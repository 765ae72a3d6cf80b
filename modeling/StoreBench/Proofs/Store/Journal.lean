import StoreBench.Proofs.Store.Effect
import StoreBench.Proofs.Store.Faithful

/-! A store that others use too, under observation. Its journal tells, in the order in which it
happened, the calls of one user and the commits of the others with the keys that they installed. -/
namespace StoreBench

inductive Entry where
  | call (call : Call)
  /-- A transaction of others, run from its begin to its commit. -/
  | foreign (installed : List Bytes)
deriving DecidableEq, Repr

/-- Whether others installed something. -/
def Entry.installs : Entry → Bool
  | .foreign installed => !installed.isEmpty
  | .call _ => false

/-- A store's state with what happened so far, the oldest entry first. -/
structure Journal (σ : Type) where
  state : σ
  entries : List Entry := []

namespace Store

variable {σ τ α : Type}

/-- Makes a call and enters what was written down of it. -/
def entered (effect : Effect (Recording σ) α) : Effect (Journal σ) α := fun journal =>
  let (result, recording) := effect.on ⟨journal.state, []⟩
  (result, ⟨recording.state, journal.entries ++ recording.calls.reverse.map Entry.call⟩)

def journaled (store : Store σ τ) : Store (Journal σ) τ where
  start := entered store.recorded.start
  read tx key := entered (store.recorded.read tx key)
  write tx key value := entered (store.recorded.write tx key value)
  drop tx key := entered (store.recorded.drop tx key)
  commit tx := entered (store.recorded.commit tx)
  doomed tx := entered (store.recorded.doomed tx)

theorem journaled_mirrors (store : Store σ τ) : Mirrors Journal.state store.journaled store where
  start _ := rfl
  read _ _ _ := rfl
  write _ _ _ _ := rfl
  commit _ _ := rfl
  doomed _ _ := rfl

end Store

/-- For every call number, the transactions that others run right before it. -/
abbrev Schedule := Nat → List Changes

namespace VersionedStore

variable (s : VersionedStore)

/-- The transaction that is committed to apply some changes. -/
def prepare (changes : Changes) : OpenTransaction :=
  changes.foldl (fun tx (key, change) =>
    match change with
    | some value => (s.write tx key value).1
    | none => (s.drop tx key).1) s.start

theorem apply_eq (changes : Changes) : s.apply changes = s.commit (s.prepare changes) := rfl

/-- The keys that are installed when some changes are applied. A refused commit installs nothing. -/
def installed (changes : Changes) : List Bytes :=
  if (s.apply changes).1 = .ok then (s.prepare changes).pending.keys else []

/-- The others have their turn. -/
def turn (schedule : Schedule) (number : Nat) : VersionedStore :=
  (schedule number).foldl (fun s changes => (s.apply changes).2) s

/-- The calls on a store that others use too. -/
def shared (schedule : Schedule) : Store (Interleaving VersionedStore) OpenTransaction :=
  calls.interleaved fun number s => s.turn schedule number

end VersionedStore

namespace Journal

/-- Others apply some changes. -/
def foreign (journal : Journal VersionedStore) (changes : Changes) : Journal VersionedStore :=
  ⟨(journal.state.apply changes).2, journal.entries ++ [.foreign (journal.state.installed changes)]⟩

def turn (journal : Journal VersionedStore) (schedule : Schedule) (number : Nat) :
    Journal VersionedStore :=
  (schedule number).foldl foreign journal

/-- The calls on a store that others use too, entered with theirs. -/
def watched (schedule : Schedule) :
    Store (Interleaving (Journal VersionedStore)) OpenTransaction :=
  VersionedStore.calls.journaled.interleaved fun number journal => journal.turn schedule number

theorem turn_state (journal : Journal VersionedStore) (schedule : Schedule) (number : Nat) :
    (journal.turn schedule number).state = journal.state.turn schedule number := by
  have general (transactions : List Changes) (journal : Journal VersionedStore) :
      (transactions.foldl foreign journal).state =
        transactions.foldl (fun s changes => (s.apply changes).2) journal.state := by
    induction transactions generalizing journal with
    | nil => rfl
    | cons changes rest ih => exact ih (journal.foreign changes)
  exact general (schedule number) journal

/-- Nobody notices the journal. -/
theorem watched_mirrors (schedule : Schedule) :
    Store.Mirrors (Interleaving.map state) (watched schedule) (VersionedStore.shared schedule) :=
  VersionedStore.calls.journaled_mirrors.interleaved fun number journal =>
    journal.turn_state schedule number

section Calls

variable (schedule : Schedule) (shared : Interleaving (Journal VersionedStore))
  (tx : OpenTransaction) (key value : Bytes)

theorem watched_start :
    (watched schedule).start.on shared =
      let journal := shared.state.turn schedule (shared.calls + 1)
      (.ok journal.state.start,
        ⟨⟨journal.state, journal.entries ++ [.call .start]⟩, shared.calls + 1⟩) := rfl

theorem watched_read :
    ((watched schedule).read tx key).on shared =
      let journal := shared.state.turn schedule (shared.calls + 1)
      let answer := journal.state.read tx key
      (.ok answer, ⟨⟨journal.state, journal.entries ++ [.call (.read key (some answer.2.2))]⟩,
        shared.calls + 1⟩) := rfl

theorem watched_write :
    ((watched schedule).write tx key value).on shared =
      let journal := shared.state.turn schedule (shared.calls + 1)
      let answer := journal.state.write tx key value
      (.ok answer, ⟨⟨journal.state, journal.entries ++ [.call (.write key value (some answer.2))]⟩,
        shared.calls + 1⟩) := rfl

theorem watched_commit :
    ((watched schedule).commit tx).on shared =
      let journal := shared.state.turn schedule (shared.calls + 1)
      let answer := journal.state.commit tx
      (.ok answer.1, ⟨⟨answer.2, journal.entries ++ [.call (.commit (some answer.1))]⟩,
        shared.calls + 1⟩) := rfl

theorem watched_doomed :
    ((watched schedule).doomed tx).on shared =
      (.ok tx.failed, ⟨⟨shared.state.state,
        shared.state.entries ++ [.call (.doomed (some tx.failed))]⟩, shared.calls⟩) := rfl

end Calls

end Journal

namespace Traced

variable (s : VersionedStore) (now : Nat)

/-- Applying changes, as one transaction that nobody interrupts. -/
def applying (changes : Changes) : Traced :=
  changes.foldl (fun tx (key, change) =>
    match change with
    | some value => tx.write s now key value
    | none => tx.drop s now key) (start s now)

theorem applying_handle (changes : Changes) :
    (applying s now changes).handle = s.prepare changes := by
  induction changes using List.reverseRecOn with
  | nil => rfl
  | append_singleton changes change ih =>
      obtain ⟨key, value⟩ := change
      rw [applying, VersionedStore.prepare, List.foldl_append, List.foldl_append]
      rw [applying, VersionedStore.prepare] at ih
      cases value with
      | none => exact congrArg (fun handle => (s.drop handle key).1) ih
      | some value => exact congrArg (fun handle => (s.write handle key value).1) ih

end Traced

variable {log : List Traced} {s : VersionedStore} {tx : Traced}

theorem Faithful.grow_all (h : Faithful log tx) (more : List Traced) :
    Faithful (log ++ more) tx := by
  induction more using List.reverseRecOn with
  | nil => rwa [List.append_nil]
  | append_singleton more other ih =>
      rw [← List.append_assoc]
      exact ih.grow other

/-- When others apply some changes, the log grows by what the journal tells that they installed. -/
theorem Reflects.foreign {journal : Journal VersionedStore} (h : Reflects log journal.state)
    (changes : Changes) :
    ∃ more, Reflects (log ++ more) (journal.foreign changes).state ∧
      ∀ key, touched more key = true → key ∈ journal.state.installed changes := by
  have hHandle := Traced.applying_handle journal.state log.length changes
  rw [Journal.foreign, VersionedStore.installed, VersionedStore.apply_eq,
    VersionedStore.commit_status, ← hHandle]
  by_cases hOk :
      journal.state.verdict (Traced.applying journal.state log.length changes).handle = .ok
  · refine ⟨[.applying journal.state log.length changes], h.commit hOk, ?_⟩
    intro key hTouched
    rw [touched_singleton] at hTouched
    rw [if_pos hOk]
    exact Std.TreeMap.mem_keys.mpr hTouched
  · refine ⟨[], ?_, fun key hTouched => Bool.noConfusion hTouched⟩
    rw [List.append_nil, VersionedStore.commit_unchanged _ _ (Or.inl hOk)]
    exact h

/-- The same for all that the others do in their turn. -/
theorem Reflects.turn {journal : Journal VersionedStore} (h : Reflects log journal.state)
    (schedule : Schedule) (number : Nat) :
    ∃ (more : List Traced) (turns : List (List Bytes)),
      Reflects (log ++ more) (journal.turn schedule number).state ∧
      (journal.turn schedule number).entries = journal.entries ++ turns.map Entry.foreign ∧
      ∀ key, touched more key = true → ∃ installed ∈ turns, key ∈ installed := by
  rw [Journal.turn]
  induction schedule number generalizing log journal with
  | nil =>
      refine ⟨[], [], ?_, (List.append_nil _).symm, fun key hTouched => Bool.noConfusion hTouched⟩
      rwa [List.append_nil]
  | cons changes rest ih =>
      obtain ⟨first, hFirst, hInstalled⟩ := h.foreign changes
      obtain ⟨more, turns, hMore, hEntries, hTurns⟩ := ih hFirst
      refine ⟨first ++ more, journal.state.installed changes :: turns, ?_, ?_, ?_⟩
      · rw [← List.append_assoc]
        exact hMore
      · rw [List.foldl_cons, hEntries, Journal.foreign, List.append_assoc]
        rfl
      · intro key hTouched
        rw [touched_append, Bool.or_eq_true] at hTouched
        rcases hTouched with hNow | hLater
        · exact ⟨_, List.mem_cons_self, hInstalled key hNow⟩
        · obtain ⟨installed, hMem, hKey⟩ := hTurns key hLater
          exact ⟨installed, List.mem_cons_of_mem _ hMem, hKey⟩

end StoreBench
