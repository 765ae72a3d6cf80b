import StoreBench.Proofs.Replay.Course
import StoreBench.Proofs.Store.Isolation
import StoreBench.Proofs.Store.Journal

/-! What a journal tells about one attempt at a transaction. The attempt starts from the newest
version, so it can fail only for a commit of others between its begin and its end. -/
namespace StoreBench

/-- Whether an attempt begins or ends with the call. -/
def Call.bounds : Call → Bool
  | .start => true
  | .commit _ => true
  | .doomed answer => answer != some false
  | _ => false

/-- The key that a read or a write asks for. -/
def Call.accessed : Call → Option Bytes
  | .read key _ => some key
  | .write key _ _ => some key
  | _ => none

/-- The part of a journal that tells one attempt. -/
structure Passage where
  /-- What others installed before the attempt began. -/
  waited : List (List Bytes)
  /-- What happened from the begin to the end. -/
  during : List Entry
  ending : Call
deriving Repr

namespace Passage

def entries (passage : Passage) : List Entry :=
  passage.waited.map Entry.foreign ++ .call .start :: (passage.during ++ [.call passage.ending])

def failed (passage : Passage) : Bool := passage.ending != .commit (some .ok)

/-- It is one attempt, ended by its store: given up, or answered by a commit of a transaction that
was not doomed. -/
structure Complete (passage : Passage) : Prop where
  inner : ∀ call, .call call ∈ passage.during → call.bounds = false
  ended : passage.ending = .doomed (some true) ∨
    ∃ status, passage.ending = .commit (some status) ∧ .call (.doomed (some false)) ∈ passage.during

/-- Others installed a key that the attempt reads or writes, after its begin and before its end. -/
def Contended (passage : Passage) : Prop :=
  ∃ installed key call, .foreign installed ∈ passage.during ∧ key ∈ installed ∧
    .call call ∈ passage.during ∧ call.accessed = some key

/-- It tells an attempt with this outcome. If that is a failure, a commit of others explains it. -/
structure Tells (passage : Passage) (outcome : Option Status) : Prop extends passage.Complete where
  contended : passage.failed = true → passage.Contended
  agrees : passage.failed = (outcome != some .ok)
  valid : outcome ≠ some .invalidTx

end Passage

/-- What a journal tells about an open transaction: all that was committed since the begin was
committed by others, and the keys of its calls are known. -/
structure Underway (log : List Traced) (tx : Traced) (during : List Entry) (s : VersionedStore) :
    Prop where
  store : Reflects log s
  handle : Faithful log tx
  inner : ∀ call, .call call ∈ during → call.bounds = false
  foreign : ∀ key, touched (log.drop tx.began) key = true →
    ∃ installed, .foreign installed ∈ during ∧ key ∈ installed
  accessed : ∀ event ∈ tx.events, ∃ call, .call call ∈ during ∧ call.accessed = some event.key

namespace Underway

variable {log : List Traced} {tx : Traced} {during : List Entry} {s : VersionedStore}

theorem start (h : Reflects log s) : Underway log (.start s log.length) [] s where
  store := h
  handle := .start h
  inner := by
    intro call hMem
    cases hMem
  foreign := by
    intro key hTouched
    rw [Traced.start, List.drop_length] at hTouched
    cases hTouched
  accessed := by
    intro event hEvent
    cases hEvent

/-- More entries, none of which begins or ends an attempt, explain what was explained before. -/
theorem extend (h : Underway log tx during s) {more : List Entry}
    (hInner : ∀ call, .call call ∈ more → call.bounds = false) :
    Underway log tx (during ++ more) s where
  store := h.store
  handle := h.handle
  inner := by
    intro call hMem
    rcases List.mem_append.mp hMem with hEarlier | hNow
    · exact h.inner call hEarlier
    · exact hInner call hNow
  foreign := by
    intro key hTouched
    obtain ⟨installed, hMem, hKey⟩ := h.foreign key hTouched
    exact ⟨installed, List.mem_append_left _ hMem, hKey⟩
  accessed := by
    intro event hEvent
    obtain ⟨call, hMem, hKey⟩ := h.accessed event hEvent
    exact ⟨call, List.mem_append_left _ hMem, hKey⟩

/-- One more call of the transaction, which is in the journal. -/
theorem noted (h : Underway log tx during s) {handle : OpenTransaction} {event : Event}
    {call : Call} (hHandle : Faithful log (tx.noted handle event)) (hMem : .call call ∈ during)
    (hCall : call.accessed = some event.key) :
    Underway log (tx.noted handle event) during s where
  store := h.store
  handle := hHandle
  inner := h.inner
  foreign := h.foreign
  accessed := by
    intro found hFound
    rcases List.mem_append.mp hFound with hEarlier | hLast
    · exact h.accessed found hEarlier
    · obtain rfl := List.mem_singleton.mp hLast
      exact ⟨call, hMem, hCall⟩

/-- More commits of others, which are in the journal. -/
theorem grow (h : Underway log tx during s) {more : List Traced} {later : VersionedStore}
    (hStore : Reflects (log ++ more) later)
    (hInstalled : ∀ key, touched more key = true →
      ∃ installed, .foreign installed ∈ during ∧ key ∈ installed) :
    Underway (log ++ more) tx during later where
  store := hStore
  handle := h.handle.grow_all more
  inner := h.inner
  foreign := by
    intro key hTouched
    rw [List.drop_append_of_le_length h.handle.began, touched_append, Bool.or_eq_true] at hTouched
    rcases hTouched with hEarlier | hNow
    · exact h.foreign key hEarlier
    · exact hInstalled key hNow
  accessed := h.accessed

theorem turn {journal : Journal VersionedStore} (h : Underway log tx during journal.state)
    (schedule : Schedule) (number : Nat) :
    ∃ (more : List Traced) (turns : List (List Bytes)),
      (journal.turn schedule number).entries = journal.entries ++ turns.map Entry.foreign ∧
      Underway (log ++ more) tx (during ++ turns.map Entry.foreign)
        (journal.turn schedule number).state := by
  obtain ⟨more, turns, hStore, hEntries, hInstalled⟩ := h.store.turn schedule number
  have hInner : ∀ call, .call call ∈ turns.map Entry.foreign → call.bounds = false := by simp
  refine ⟨more, turns, hEntries, (h.extend hInner).grow hStore ?_⟩
  intro key hTouched
  obtain ⟨installed, hMem, hKey⟩ := hInstalled key hTouched
  exact ⟨installed, List.mem_append_right _ (List.mem_map_of_mem hMem), hKey⟩

theorem read (h : Underway log tx during s) (key : Bytes) (answer : Option Status) :
    Underway log (tx.read s log.length key) (during ++ [.call (.read key answer)]) s := by
  have hInner : ∀ call, .call call ∈ [Entry.call (.read key answer)] → call.bounds = false := by
    simp [Call.bounds]
  exact (h.extend hInner).noted (h.handle.read h.store key)
    (List.mem_append_right _ (List.mem_singleton_self _)) rfl

theorem write (h : Underway log tx during s) (key value : Bytes) (answer : Option Status) :
    Underway log (tx.write s log.length key value)
      (during ++ [.call (.write key value answer)]) s := by
  have hInner : ∀ call, .call call ∈ [Entry.call (.write key value answer)] →
      call.bounds = false := by simp [Call.bounds]
  exact (h.extend hInner).noted (h.handle.write h.store key value)
    (List.mem_append_right _ (List.mem_singleton_self _)) rfl

/-- A call on a key that has been touched since the begin. -/
theorem contended (h : Underway log tx during s) {event : Event} (hEvent : event ∈ tx.events)
    (hTouched : touched (log.drop tx.began) event.key = true) (waited : List (List Bytes))
    (ending : Call) : Passage.Contended ⟨waited, during, ending⟩ := by
  obtain ⟨installed, hForeign, hKey⟩ := h.foreign event.key hTouched
  obtain ⟨call, hCall, hAccessed⟩ := h.accessed event hEvent
  exact ⟨installed, event.key, call, hForeign, hKey, hCall, hAccessed⟩

/-- A doomed transaction wrote to a key that others had installed. -/
theorem contended_of_doomed (h : Underway log tx during s) (hFailed : tx.handle.failed = true)
    (waited : List (List Bytes)) (ending : Call) :
    Passage.Contended ⟨waited, during, ending⟩ := by
  obtain ⟨moment, key, value, status, hEvent, hTouched⟩ := h.handle.failed.mp hFailed
  have hSince : touched (log.drop tx.began) key = true :=
    touched_of_subset ((List.take_sublist moment log).drop tx.began).subset hTouched
  exact h.contended hEvent hSince waited ending

/-- So did, or read, a transaction whose commit is refused. -/
theorem contended_of_refused (h : Underway log tx during s) (hFailed : tx.handle.failed = false)
    (hRefused : s.verdict tx.handle ≠ .ok) (waited : List (List Bytes)) (ending : Call) :
    Passage.Contended ⟨waited, during, ending⟩ := by
  classical
  -- The last cause that is left is that nothing was touched, and then the commit is granted.
  rw [h.handle.verdict_eq h.store, ← h.handle.failed, hFailed,
    if_neg Bool.false_ne_true] at hRefused
  by_cases hChanged : ∃ key ∈ tx.handle.pending, touched (log.drop tx.began) key = true
  · obtain ⟨key, hPending, hTouched⟩ := hChanged
    rw [Std.TreeMap.mem_iff_isSome_getElem?, h.handle.pending,
      Changes.last_isSome_iff] at hPending
    obtain ⟨change, hMem, rfl⟩ := hPending
    obtain ⟨event, hEvent, hChange⟩ := List.mem_filterMap.mp hMem
    rw [Event.key_of_change hChange] at hTouched
    exact h.contended hEvent hTouched waited ending
  · rw [if_neg hChanged] at hRefused
    by_cases hRead : ∃ key, ReadThrough tx.events key ∧ touched (log.drop tx.began) key = true
    · obtain ⟨key, ⟨i, moment, value, status, hEvent, _⟩, hTouched⟩ := hRead
      exact h.contended (List.mem_of_getElem? hEvent) hTouched waited ending
    · rw [if_neg hRead] at hRefused
      exact absurd rfl hRefused

/-- What a commit leaves is the state after some commits again, whatever it was answered. -/
theorem committed (h : Underway log tx during s) :
    ∃ later, Reflects later (s.commit tx.handle).2 := by
  by_cases hOk : s.verdict tx.handle = .ok
  · exact ⟨log ++ [tx], h.store.commit hOk⟩
  · rw [s.commit_unchanged tx.handle (Or.inl hOk)]
    exact ⟨log, h.store⟩

/-- The end of an attempt that is given up. -/
theorem givenUp (h : Underway log tx during s) (hFailed : tx.handle.failed = true)
    (waited : List (List Bytes)) :
    Passage.Tells ⟨waited, during, .doomed (some true)⟩ none where
  inner := h.inner
  ended := Or.inl rfl
  contended _ := h.contended_of_doomed hFailed waited _
  agrees := rfl
  valid := nofun

/-- The end of an attempt whose commit is answered. -/
theorem answered (h : Underway log tx during s) {status : Status}
    (hStatus : (s.commit tx.handle).1 = status) (hFailed : tx.handle.failed = false)
    (hAsked : .call (.doomed (some false)) ∈ during) (waited : List (List Bytes)) :
    Passage.Tells ⟨waited, during, .commit (some status)⟩ (some status) where
  inner := h.inner
  ended := Or.inr ⟨status, rfl, hAsked⟩
  contended hRefused := by
    refine h.contended_of_refused hFailed ?_ waited _
    rw [← VersionedStore.commit_status, hStatus]
    rintro rfl
    cases hRefused
  agrees := by
    cases status <;> rfl
  valid hInvalid := by
    rw [VersionedStore.commit_status] at hStatus
    have hDoomed : tx.handle.failed = true :=
      VersionedStore.verdict_invalid_iff.mp (hStatus.trans (Option.some.inj hInvalid))
    rw [hFailed] at hDoomed
    cases hDoomed

end Underway

open Effect (Ensures)

section Attempt

variable {entries begun : List Entry} {handle : OpenTransaction} {journal : Journal VersionedStore}

/-- A journal between two attempts. -/
def Idle (entries : List Entry) (journal : Journal VersionedStore) : Prop :=
  journal.entries = entries ∧ ∃ log, Reflects log journal.state

/-- A journal inside of an attempt whose begin is the last of the entries `begun`. -/
def Inside (begun : List Entry) (handle : OpenTransaction) (journal : Journal VersionedStore) :
    Prop :=
  ∃ log tx during, journal.entries = begun ++ during ∧ tx.handle = handle ∧
    Underway log tx during journal.state

/-- The same between two commands, when there is no outcome yet. -/
def Running (begun : List Entry) (progress : OpenTransaction × Attempt)
    (shared : Interleaving (Journal VersionedStore)) : Prop :=
  Inside begun progress.1 shared.state ∧ progress.2.outcome = none

namespace Inside

theorem turn (h : Inside begun handle journal) (schedule : Schedule) (number : Nat) :
    Inside begun handle (journal.turn schedule number) := by
  obtain ⟨log, tx, during, hEntries, rfl, hUnderway⟩ := h
  obtain ⟨more, turns, hTurned, hTurn⟩ := hUnderway.turn schedule number
  refine ⟨log ++ more, tx, _, ?_, rfl, hTurn⟩
  rw [hTurned, hEntries, List.append_assoc]

theorem read (h : Inside begun handle journal) (key : Bytes) (answer : Option Status) :
    Inside begun (journal.state.read handle key).1
      ⟨journal.state, journal.entries ++ [.call (.read key answer)]⟩ := by
  obtain ⟨log, tx, during, hEntries, rfl, hUnderway⟩ := h
  refine ⟨log, _, _, ?_, rfl, hUnderway.read key answer⟩
  rw [hEntries, List.append_assoc]

theorem write (h : Inside begun handle journal) (key value : Bytes) (answer : Option Status) :
    Inside begun (journal.state.write handle key value).1
      ⟨journal.state, journal.entries ++ [.call (.write key value answer)]⟩ := by
  obtain ⟨log, tx, during, hEntries, rfl, hUnderway⟩ := h
  refine ⟨log, _, _, ?_, rfl, hUnderway.write key value answer⟩
  rw [hEntries, List.append_assoc]

end Inside

variable (schedule : Schedule)

theorem start_inside :
    Ensures (fun shared => Idle entries shared.state) (Journal.watched schedule).start
      fun handle shared => ∃ turns : List (List Bytes),
        Inside (entries ++ turns.map Entry.foreign ++ [.call .start]) handle shared.state := by
  rintro shared ⟨rfl, log, hStore⟩ handle reached hRan
  obtain ⟨more, turns, hTurn, hEntries, _⟩ := hStore.turn schedule (shared.calls + 1)
  rw [Journal.watched_start] at hRan
  cases hRan
  refine ⟨turns, log ++ more, _, [], ?_, rfl, .start hTurn⟩
  rw [← hEntries, List.append_nil]

theorem read_inside (handle : OpenTransaction) (key : Bytes) :
    Ensures (fun shared => Inside begun handle shared.state)
      ((Journal.watched schedule).read handle key)
      fun answer shared => Inside begun answer.1 shared.state := by
  intro shared hInside answer reached hRan
  rw [Journal.watched_read] at hRan
  cases hRan
  exact (hInside.turn schedule _).read key _

theorem write_inside (handle : OpenTransaction) (key value : Bytes) :
    Ensures (fun shared => Inside begun handle shared.state)
      ((Journal.watched schedule).write handle key value)
      fun answer shared => Inside begun answer.1 shared.state := by
  intro shared hInside answer reached hRan
  rw [Journal.watched_write] at hRan
  cases hRan
  exact (hInside.turn schedule _).write key value _

variable (samples : SampleSet)

theorem command_inside (progress : OpenTransaction × Attempt) (cmd : Command) :
    Ensures (Running begun progress) ((Journal.watched schedule).command samples progress cmd)
      (Running begun) := by
  obtain ⟨handle, attempt⟩ := progress
  rw [Store.command]
  cases samples[cmd.index]? with
  | none => exact .throw _
  | some pair =>
      rintro shared ⟨hInside, hOutcome⟩
      cases cmd.operation with
      | get =>
          refine Ensures.bind (read_inside schedule handle pair.key) ?_ shared hInside
          exact fun _ => .pure fun _ hRead => ⟨hRead, hOutcome⟩
      | put =>
          refine Ensures.bind (write_inside schedule handle pair.key pair.value) ?_ shared hInside
          exact fun _ => .pure fun _ hWrite => ⟨hWrite, hOutcome⟩

theorem commands_inside (tx : Transaction) (progress : OpenTransaction × Attempt) :
    Ensures (Running begun progress)
      (tx.foldlM ((Journal.watched schedule).command samples) progress) (Running begun) :=
  .foldlM (fun cmd _ progress => command_inside schedule samples progress cmd) progress

/-- The store is asked about a transaction that is `Inside` of its attempt. -/
theorem doomed_inside (handle : OpenTransaction) :
    Ensures (fun shared => Inside begun handle shared.state)
      ((Journal.watched schedule).doomed handle)
      fun given shared => given = handle.failed ∧ ∃ log tx during,
        shared.state.entries = begun ++ (during ++ [.call (.doomed (some given))]) ∧
        tx.handle = handle ∧ Underway log tx during shared.state.state := by
  rintro shared ⟨log, tx, during, hEntries, rfl, hUnderway⟩ given reached hRan
  rw [Journal.watched_doomed] at hRan
  cases hRan
  refine ⟨rfl, log, tx, during, ?_, rfl, hUnderway⟩
  rw [hEntries, List.append_assoc]

/-- An attempt is told by the journal, from the turn before its begin to its end. -/
theorem attempt_told (tx : Transaction) :
    Ensures (fun shared => Idle entries shared.state)
      ((Journal.watched schedule).attempt samples tx) fun attempt shared =>
        ∃ passage : Passage, passage.Tells attempt.outcome ∧
          Idle (entries ++ passage.entries) shared.state := by
  refine .bind (start_inside schedule) fun handle => ?_
  rintro shared ⟨turns, hInside⟩
  refine Ensures.bind (commands_inside schedule samples tx (handle, {})) ?_ shared ⟨hInside, rfl⟩
  rintro ⟨handle, attempt⟩ shared ⟨hInside, hOutcome⟩
  refine Ensures.bind (doomed_inside schedule handle) ?_ shared hInside
  rintro _ shared ⟨rfl, log, tx, during, hEntries, rfl, hUnderway⟩ result reached hRan
  cases hFailed : tx.handle.failed with
  | true =>
      rw [hFailed] at hRan hEntries
      cases hRan
      refine ⟨⟨turns, during, .doomed (some true)⟩, ?_, ?_, log, hUnderway.store⟩
      · rw [hOutcome]
        exact hUnderway.givenUp hFailed turns
      · rw [hEntries, Passage.entries]
        simp only [List.append_assoc, List.singleton_append]
  | false =>
      rw [hFailed] at hRan hEntries
      have hInner : ∀ call, .call call ∈ [Entry.call (.doomed (some false))] →
          call.bounds = false := by simp [Call.bounds]
      obtain ⟨more, others, hTurned, hTurn⟩ :=
        (hUnderway.extend hInner).turn schedule (shared.calls + 1)
      have hCommit := Effect.on_bind_ok (Journal.watched_commit schedule shared tx.handle)
        fun status => pure { attempt with outcome := some status }
      cases hCommit.symm.trans hRan
      refine ⟨⟨turns, during ++ [.call (.doomed (some false))] ++ others.map Entry.foreign, _⟩,
        hTurn.answered rfl hFailed (by simp) turns, ?_, hTurn.committed⟩
      rw [hTurned, hEntries, Passage.entries]
      simp only [List.append_assoc, List.cons_append, List.nil_append]

end Attempt

end StoreBench
