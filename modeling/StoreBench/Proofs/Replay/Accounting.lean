import Mathlib.Tactic.Ring
import StoreBench.Proofs.Replay.Course

/-! What the tallies of a replay say. Every transaction is settled in the end, by a commit or by a
cancelation, and the repetitions that it took lie within its own budget. All other tallies are read
off the answers of the store. -/
namespace StoreBench

/-- Tallies of this many settled transactions, each of which could be repeated `retries` times. -/
structure Counters.Settled (retries transactions : Nat) (c : Counters) : Prop where
  settled : c.committed + c.canceledTxs = transactions
  attempts : c.attempts = c.committed + c.failures
  /-- A canceled transaction has used up its budget. -/
  exhausted : (retries + 1) * c.canceledTxs ≤ c.failures
  /-- A committed one has not. -/
  repeated : c.failures ≤ (retries + 1) * c.canceledTxs + retries * c.committed

namespace Counters.Settled

variable {retries m n : Nat} {a b : Counters}

theorem assigned (count : Nat) : Settled retries 0 { assigned := count } :=
  ⟨rfl, rfl, Nat.le_refl 0, Nat.le_refl 0⟩

theorem add (ha : Settled retries m a) (hb : Settled retries n b) :
    Settled retries (m + n) (a + b) := by
  obtain ⟨haSettled, haAttempts, haExhausted, haRepeated⟩ := ha
  obtain ⟨hbSettled, hbAttempts, hbExhausted, hbRepeated⟩ := hb
  rw [add_def]
  refine ⟨?_, ?_, ?_, ?_⟩
  · simp only [plus]
    omega
  · simp only [plus]
    omega
  · simp only [plus, Nat.mul_add]
    omega
  · simp only [plus, Nat.mul_add]
    omega

theorem success {attempt : Attempt} (h : attempt.succeeded = true) :
    Settled retries 1 attempt.counters := by
  refine ⟨?_, ?_, ?_, ?_⟩ <;> simp [Attempt.counters, h]

theorem canceled {attempt : Attempt} (h : attempt.succeeded = false) :
    Settled 0 1 (attempt.counters + { canceledTxs := 1 }) := by
  refine ⟨?_, ?_, ?_, ?_⟩ <;> simp [Attempt.counters, h, add_def, plus]

/-- A failed attempt in front takes one repetition more. -/
theorem repeated_after (h : Settled retries 1 a) {attempt : Attempt}
    (hFailure : attempt.succeeded = false) :
    Settled (retries + 1) 1 (attempt.counters + a) := by
  obtain ⟨hSettled, hAttempts, hExhausted, hRepeated⟩ := h
  simp only [Nat.add_mul, Nat.one_mul] at hExhausted hRepeated
  have hFailed : attempt.counters + a =
      { attempt.counters + a with
        attempts := 1 + a.attempts, committed := a.committed, failures := 1 + a.failures,
        canceledTxs := a.canceledTxs } := by
    simp [add_def, plus, Attempt.counters, hFailure]
  rw [hFailed]
  refine ⟨hSettled, ?_, ?_, ?_⟩
  · simp only [hAttempts]
    omega
  · simp only [Nat.add_mul, Nat.one_mul]
    omega
  · simp only [Nat.add_mul, Nat.one_mul]
    omega

theorem attempts_le (h : Settled retries n a) : a.attempts ≤ n * (retries + 1) := by
  calc a.attempts
      = a.committed + a.failures := h.attempts
    _ ≤ a.committed + ((retries + 1) * a.canceledTxs + retries * a.committed) :=
        Nat.add_le_add_left h.repeated _
    _ = (a.committed + a.canceledTxs) * (retries + 1) := by ring
    _ = n * (retries + 1) := by rw [h.settled]

/-- With a budget that the failures do not exceed, nothing is canceled. -/
theorem all_committed (h : Settled retries n a) (hBudget : a.failures ≤ retries) :
    a.canceledTxs = 0 ∧ a.committed = n := by
  have hNone : a.canceledTxs = 0 := by
    by_contra hSome
    have hOne : retries + 1 ≤ (retries + 1) * a.canceledTxs :=
      Nat.le_mul_of_pos_right _ (Nat.pos_of_ne_zero hSome)
    have hFailures := h.exhausted
    omega
  exact ⟨hNone, by rw [← h.settled, hNone, Nat.add_zero]⟩

end Counters.Settled

namespace Store

variable {σ τ : Type} {store : Store σ τ} {samples : SampleSet}

/-- The attempts at one transaction settle it. Each of them that is not the last one has failed and
has taken one repetition from the budget. -/
theorem Tried.settled {tx : Transaction} {left : Nat} {before after : σ} {tries : Tries σ}
    (h : store.Tried samples tx left before tries after) :
    Counters.Settled left 1 tries.tally := by
  induction h with
  | succeeded hRan hSuccess =>
      rw [Tries.tally_succeeded hSuccess]
      exact .success hSuccess
  | canceled hRan hFailure =>
      rw [Tries.tally_canceled hFailure]
      exact .canceled hFailure
  | repeated hRan hFailure hRest ih =>
      rw [Tries.tally_repeated hFailure]
      exact ih.repeated_after hFailure

theorem Replayed.settled {retries : Nat} {transactions : List Transaction} {before after : σ}
    {course : Course σ} (h : store.Replayed samples retries transactions before course after) :
    Counters.Settled retries transactions.length course.made := by
  have hTally : Counters.Settled retries transactions.length course.tally := by
    induction h with
    | nil state => exact .assigned 0
    | cons hFirst _ ih =>
        rw [Course.tally_cons, List.length_cons, Nat.add_comm]
        exact hFirst.settled.add ih
  rw [← Nat.zero_add transactions.length]
  exact (Counters.Settled.assigned course.length).add hTally

end Store

/-- What a call and its answer add to the tallies. Which transactions are canceled is not told by a
single call. -/
def Call.tally : Call → Counters
  | .start => { attempts := 1 }
  | .read _ (some .valueNotFound) => { readSnapshotMisses := 1 }
  | .write _ _ (some .valueNotFound) => { writeSnapshotMisses := 1 }
  | .doomed (some true) => { failures := 1 }
  | .commit (some .ok) => { committed := 1 }
  | .commit (some .invalidTx) => { failures := 1, invalidTxs := 1 }
  | .commit (some .rwConflict) => { failures := 1, rwConflicts := 1 }
  | .commit (some .wwConflict) => { failures := 1, wwConflicts := 1 }
  | .commit (some .valueNotFound) => { failures := 1 }
  | _ => 0

/-- A read that was told that there is no such value. -/
def Call.missesRead : Call → Bool
  | .read _ (some .valueNotFound) => true
  | _ => false

def Call.missesWrite : Call → Bool
  | .write _ _ (some .valueNotFound) => true
  | _ => false

def Recording.tally {σ : Type} (recording : Recording σ) : Counters :=
  (recording.calls.map Call.tally).sum

/-- The part of an attempt's tallies that its reads and writes account for. -/
def Attempt.misses (attempt : Attempt) : Counters :=
  { readSnapshotMisses := attempt.readMisses, writeSnapshotMisses := attempt.writeMisses }

theorem Attempt.misses_read (attempt : Attempt) (key : Bytes) (status : Status) :
    (Call.read key (some status)).tally + attempt.misses =
      { attempt with readMisses := attempt.readMisses + if status = .valueNotFound then 1 else 0 :
        Attempt }.misses := by
  cases status <;> simp [misses, Call.tally, Counters.add_def, Counters.plus, Nat.add_comm]

theorem Attempt.misses_write (attempt : Attempt) (key value : Bytes) (status : Status) :
    (Call.write key value (some status)).tally + attempt.misses =
      { attempt with writeMisses := attempt.writeMisses + if status = .valueNotFound then 1 else 0 :
        Attempt }.misses := by
  cases status <;> simp [misses, Call.tally, Counters.add_def, Counters.plus, Nat.add_comm]

theorem Attempt.counters_givenUp {attempt : Attempt} (h : attempt.outcome = none) :
    attempt.counters = (Call.doomed (some true)).tally + (attempt.misses + Call.start.tally) := by
  simp [counters, misses, succeeded, Call.tally, Counters.add_def, Counters.plus, h]

theorem Attempt.counters_answered (attempt : Attempt) (status : Status) :
    { attempt with outcome := some status : Attempt }.counters =
      (Call.commit (some status)).tally + (attempt.misses + Call.start.tally) := by
  cases status <;>
    simp [counters, misses, succeeded, Call.tally, Counters.add_def, Counters.plus]

namespace Store

open Effect (Ensures)

variable {σ τ α : Type} (store : Store σ τ) (samples : SampleSet) (before : Counters)

theorem noted_tally (effect : Effect σ α) (describe : Option α → Call) :
    Ensures (fun recording => recording.tally = before) (noted effect describe)
      fun result recording => recording.tally = (describe (some result)).tally + before := by
  rintro recording rfl result reached hRan
  rw [on_noted] at hRan
  obtain ⟨hResult, rfl⟩ := Prod.mk.inj hRan
  rw [hResult]
  exact List.sum_cons

variable {samples before}

theorem read_tally (tx : τ) (key : Bytes) :
    Ensures (fun recording => recording.tally = before) (store.recorded.read tx key)
      fun answer recording =>
        recording.tally = (Call.read key (some answer.2.2)).tally + before := by
  have hNoted := noted_tally before (store.read tx key) fun result =>
    .read key (result.map (·.2.2))
  exact hNoted

theorem write_tally (tx : τ) (key value : Bytes) :
    Ensures (fun recording => recording.tally = before) (store.recorded.write tx key value)
      fun answer recording =>
        recording.tally = (Call.write key value (some answer.2)).tally + before := by
  have hNoted := noted_tally before (store.write tx key value) fun result =>
    .write key value (result.map (·.2))
  exact hNoted

/-- The invariant of the commands of an attempt: its misses are those that the calls tell. -/
def MissesTold (before : Counters) (progress : τ × Attempt) (recording : Recording σ) : Prop :=
  recording.tally = progress.2.misses + before ∧ progress.2.outcome = none

theorem command_tally (progress : τ × Attempt) (cmd : Command) :
    Ensures (MissesTold before progress) (store.recorded.command samples progress cmd)
      (MissesTold before) := by
  obtain ⟨handle, attempt⟩ := progress
  rw [command]
  cases samples[cmd.index]? with
  | none => exact .throw _
  | some pair =>
      rintro recording ⟨hTally, hOutcome⟩
      cases cmd.operation with
      | get =>
          refine Ensures.bind (store.read_tally handle pair.key) ?_ recording hTally
          rintro ⟨reached, value, status⟩
          refine .pure fun recording hRead => ⟨hRead.trans ?_, hOutcome⟩
          rw [← add_assoc, Attempt.misses_read]
      | put =>
          refine Ensures.bind (store.write_tally handle pair.key pair.value) ?_ recording hTally
          rintro ⟨reached, status⟩
          refine .pure fun recording hWrite => ⟨hWrite.trans ?_, hOutcome⟩
          rw [← add_assoc, Attempt.misses_write]

/-- What an attempt counts is what its calls account for. -/
theorem attempt_tally (tx : Transaction) :
    Ensures (fun recording => recording.tally = before) (store.recorded.attempt samples tx)
      fun attempt recording => recording.tally = attempt.counters + before := by
  refine .bind (noted_tally before store.start fun _ => .start) fun handle => ?_
  have hCommands : Ensures (MissesTold (Call.start.tally + before) (handle, {}))
      (tx.foldlM (store.recorded.command samples) (handle, {}))
      (MissesTold (Call.start.tally + before)) :=
    .foldlM (fun cmd _ done => store.command_tally done cmd) (handle, {})
  refine .bind (hCommands.weaken ?_) ?_
  · intro recording hStart
    exact ⟨hStart.trans (zero_add _).symm, rfl⟩
  · rintro ⟨reached, attempt⟩ recording ⟨hTally, hOutcome⟩
    refine Ensures.bind (noted_tally _ (store.doomed reached) .doomed) ?_ recording hTally
    intro given
    cases given with
    | true =>
        refine .pure fun recording hDoomed => hDoomed.trans ?_
        rw [Attempt.counters_givenUp hOutcome]
        simp only [add_assoc]
    | false =>
        refine .bind (noted_tally _ (store.commit reached) .commit) fun status => ?_
        refine .pure fun recording hCommit => hCommit.trans ?_
        rw [Attempt.counters_answered]
        simp only [add_assoc, Call.tally, zero_add]

/-- The calls of the attempts at a transaction account for all tallies but the cancelation. -/
theorem Tried.accounted {store : Store σ τ} {tx : Transaction} {left : Nat}
    {before after : Recording σ} {tries : Tries (Recording σ)}
    (h : store.recorded.Tried samples tx left before tries after) :
    ∃ canceled, after.tally + { canceledTxs := canceled } = tries.tally + before.tally := by
  induction h with
  | @succeeded left before after attempt hRan hSuccess =>
      refine ⟨0, ?_⟩
      rw [Tries.tally_succeeded hSuccess, store.attempt_tally tx before rfl attempt after hRan]
      exact add_zero _
  | @canceled before after attempt hRan hFailure =>
      refine ⟨1, ?_⟩
      rw [Tries.tally_canceled hFailure, store.attempt_tally tx before rfl attempt after hRan,
        add_right_comm]
  | @repeated left before after last attempt more hRan hFailure hRest ih =>
      obtain ⟨canceled, hMore⟩ := ih
      refine ⟨canceled, ?_⟩
      rw [Tries.tally_repeated hFailure, hMore,
        store.attempt_tally tx before rfl attempt after hRan, ← add_assoc,
        add_comm attempt.counters]

theorem Replayed.accounted {store : Store σ τ} {retries : Nat} {transactions : List Transaction}
    {before after : Recording σ} {course : Course (Recording σ)}
    (h : store.recorded.Replayed samples retries transactions before course after) :
    ∃ canceled, after.tally + { canceledTxs := canceled } = course.tally + before.tally := by
  induction h with
  | nil state => exact ⟨0, (add_zero _).trans (zero_add _).symm⟩
  | @cons tx rest before middle after tries course hFirst _ ih =>
      obtain ⟨first, hFirst⟩ := hFirst.accounted
      obtain ⟨others, hOthers⟩ := ih
      refine ⟨others + first, ?_⟩
      calc after.tally + { canceledTxs := others + first }
          = after.tally + { canceledTxs := others } + { canceledTxs := first } :=
            (add_assoc after.tally { canceledTxs := others } { canceledTxs := first }).symm
        _ = course.tally + (middle.tally + { canceledTxs := first }) := by rw [hOthers, add_assoc]
        _ = Course.tally (tries :: course) + before.tally := by
            rw [hFirst, Course.tally_cons, ← add_assoc, add_comm course.tally]

end Store

/-- Tallies that are the numbers of these answers. What is counted as a failure without a conflict
was given up before its commit, or its commit found nothing. -/
structure Counters.Told (calls : List Call) (c : Counters) : Prop where
  attempts : c.attempts = calls.count .start
  committed : c.committed = calls.count (.commit (some .ok))
  wwConflicts : c.wwConflicts = calls.count (.commit (some .wwConflict))
  rwConflicts : c.rwConflicts = calls.count (.commit (some .rwConflict))
  invalidTxs : c.invalidTxs = calls.count (.commit (some .invalidTx))
  failures : c.failures = c.wwConflicts + c.rwConflicts + c.invalidTxs +
    (calls.count (.doomed (some true)) + calls.count (.commit (some .valueNotFound)))
  readMisses : c.readSnapshotMisses = calls.countP Call.missesRead
  writeMisses : c.writeSnapshotMisses = calls.countP Call.missesWrite

namespace Counters.Told

theorem add {calls more : List Call} {a b : Counters} (ha : Told calls a) (hb : Told more b) :
    Told (calls ++ more) (a + b) := by
  obtain ⟨haAttempts, haCommitted, haWw, haRw, haInvalid, haFailures, haReads, haWrites⟩ := ha
  obtain ⟨hbAttempts, hbCommitted, hbWw, hbRw, hbInvalid, hbFailures, hbReads, hbWrites⟩ := hb
  rw [add_def]
  constructor <;> simp only [plus, List.count_append, List.countP_append] <;> omega

theorem call (call : Call) : Told [call] call.tally := by
  cases call with
  | start => exact ⟨rfl, rfl, rfl, rfl, rfl, rfl, rfl, rfl⟩
  | read key answer =>
      rcases answer with _ | _ | _ | _ | _ | _ <;> exact ⟨rfl, rfl, rfl, rfl, rfl, rfl, rfl, rfl⟩
  | write key value answer =>
      rcases answer with _ | _ | _ | _ | _ | _ <;> exact ⟨rfl, rfl, rfl, rfl, rfl, rfl, rfl, rfl⟩
  | drop key answer => exact ⟨rfl, rfl, rfl, rfl, rfl, rfl, rfl, rfl⟩
  | commit answer =>
      rcases answer with _ | _ | _ | _ | _ | _ <;> exact ⟨rfl, rfl, rfl, rfl, rfl, rfl, rfl, rfl⟩
  | doomed answer =>
      rcases answer with _ | _ | _ <;> exact ⟨rfl, rfl, rfl, rfl, rfl, rfl, rfl, rfl⟩

theorem sum (calls : List Call) : Told calls (calls.map Call.tally).sum := by
  induction calls with
  | nil => exact ⟨rfl, rfl, rfl, rfl, rfl, rfl, rfl, rfl⟩
  | cons first rest ih =>
      rw [List.map_cons, List.sum_cons]
      exact (call first).add ih

end Counters.Told

namespace Store

variable {σ τ : Type}

theorem Replayed.told {store : Store σ τ} {samples : SampleSet} {retries : Nat}
    {transactions : List Transaction} {state final : σ} {calls : List Call}
    {course : Course (Recording σ)}
    (h : store.recorded.Replayed samples retries transactions ⟨state, []⟩ course ⟨final, calls⟩) :
    Counters.Told calls course.made := by
  obtain ⟨canceled, hAccounted⟩ := h.accounted
  have hTally : (calls.map Call.tally).sum + { canceledTxs := canceled } = course.tally :=
    hAccounted.trans (add_zero _)
  have hAssigned : Counters.Told [] { assigned := course.length } :=
    ⟨rfl, rfl, rfl, rfl, rfl, rfl, rfl, rfl⟩
  have hCanceled : Counters.Told [] { canceledTxs := canceled } :=
    ⟨rfl, rfl, rfl, rfl, rfl, rfl, rfl, rfl⟩
  have hAll := hAssigned.add ((Counters.Told.sum calls).add hCanceled)
  rwa [List.append_nil, List.nil_append, hTally] at hAll

/-- Replay gets through its transactions whatever the store answers, and its tallies add up. All of
them are settled, each with one attempt for its commit and within its own budget of repetitions; a
failure that no conflict explains is an attempt that was given up, or a commit that found nothing;
and the misses are the reads and writes that were answered so. The only other end of a replay is a
tally that no word holds. -/
theorem replay_accounts (store : Store σ τ) (hReturns : store.Returns) (samples : SampleSet)
    (transactions : List Transaction)
    (hInRange : ∀ tx ∈ transactions, ∀ cmd ∈ tx, cmd.index < samples.size)
    (retries : Nat) (initial : Tally) (state : σ)
    (hOverflow :
      ((store.replay samples transactions retries initial).on state).1 ≠ .error .overflow) :
    ∃ (tally : Tally) (final : σ) (calls : List Call) (made : Counters),
      (store.replay samples transactions retries initial).on state = (.ok tally, final) ∧
      (store.recorded.replay samples transactions retries initial).on ⟨state, []⟩ =
        (.ok tally, ⟨final, calls⟩) ∧
      tally.counters = initial.counters + made ∧
      made.assigned = transactions.length ∧
      made.committed + made.canceledTxs = transactions.length ∧
      made.attempts = made.committed + made.failures ∧
      made.failures = made.wwConflicts + made.rwConflicts + made.invalidTxs +
        (calls.count (.doomed (some true)) + calls.count (.commit (some .valueNotFound))) ∧
      (retries + 1) * made.canceledTxs ≤ made.failures ∧
      made.failures ≤ (retries + 1) * made.canceledTxs + retries * made.committed ∧
      made.readSnapshotMisses = calls.countP Call.missesRead ∧
      made.writeSnapshotMisses = calls.countP Call.missesWrite ∧
      made.attempts = calls.count .start ∧
      made.attempts ≤ transactions.length * (retries + 1) := by
  have hMirrors := store.recorded_mirrors
  obtain ⟨course, ⟨final, calls⟩, hCourse⟩ :=
    exists_replayed (hMirrors.returns hReturns) hInRange retries ⟨state, []⟩
  -- The calls are read off the recorded replay, which answers as the plain one.
  have hSame : (store.replay samples transactions retries initial).on state = _ :=
    hMirrors.replay transactions retries initial ⟨state, []⟩
  rw [hSame] at hOverflow ⊢
  obtain ⟨tally, hEnded, hTally⟩ := (hCourse.gained initial).returned hOverflow
  have hAssigned : course.made.assigned = transactions.length := by
    rw [course.made_assigned, hCourse.length]
  have hSettled := hCourse.settled
  have hTold := hCourse.told
  exact ⟨tally, final, calls, course.made, by rw [hEnded], hEnded, hTally, hAssigned,
    hSettled.settled, hSettled.attempts, hTold.failures, hSettled.exhausted, hSettled.repeated,
    hTold.readMisses, hTold.writeMisses, hTold.attempts, hSettled.attempts_le⟩

/-- Two attempts at one transaction, the first of which runs into a conflict. -/
theorem replay_accounts_repeated :
    let store := Script.store { reads := [.valueNotFound], commits := [.rwConflict, .ok] }
    let samples : SampleSet := #[⟨[1], [10]⟩]
    let transactions : List Transaction := [[⟨.get, 0⟩]]
    store.Returns ∧ (∀ tx ∈ transactions, ∀ cmd ∈ tx, cmd.index < samples.size) ∧
      ∃ made : Counters,
        (((store.replay samples transactions 1 {}).on {}).1.map fun tally => tally.counters) =
          .ok made ∧
        made.failures = 1 ∧ made.committed + made.canceledTxs = 1 ∧
        made.readSnapshotMisses = 2 := by
  intro store samples transactions
  have hReturns : store.Returns := Script.store_returns rfl
  have hInRange : ∀ tx ∈ transactions, ∀ cmd ∈ tx, cmd.index < samples.size := by decide
  have hRan : ((store.replay samples transactions 1 {}).on {}).1.map (fun tally => tally.counters) =
      .ok { assigned := 1, attempts := 2, committed := 1, failures := 1, rwConflicts := 1,
            readSnapshotMisses := 2 } := by decide
  have hOverflow : ((store.replay samples transactions 1 {}).on {}).1 ≠ .error .overflow :=
    ne_error_of_map_eq_ok hRan .overflow
  obtain ⟨tally, final, calls, made, hPlain, _, hMade, _, hSettled, _⟩ :=
    replay_accounts store hReturns samples transactions hInRange 1 {} {} hOverflow
  refine ⟨hReturns, hInRange, made, ?_⟩
  rw [hPlain] at hRan ⊢
  have hTally : tally.counters = made := hMade.trans (zero_add made)
  obtain rfl := hTally
  have hCounters := Except.ok.inj hRan
  refine ⟨rfl, ?_, hSettled, ?_⟩
  · rw [show tally.counters = _ from hCounters]
  · rw [show tally.counters = _ from hCounters]

end Store

end StoreBench
