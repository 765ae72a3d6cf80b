import StoreBench.Proofs.Replay.Accounting
import StoreBench.Proofs.Replay.Passage

/-! Replay against a store that others use too. Every failed attempt has a commit of others to
blame, and no commit is to blame for two attempts. A budget of as many repetitions as there are such
commits is therefore never used up. -/
namespace StoreBench

/-- A failed attempt spans a turn in which others installed something. -/
theorem Passage.installs_of_failed {passage : Passage}
    (h : passage.failed = true → passage.Contended) :
    [passage].countP Passage.failed ≤ passage.entries.countP Entry.installs := by
  cases hFailed : passage.failed with
  | false => simp [hFailed]
  | true =>
      obtain ⟨installed, key, _, hForeign, hKey, _⟩ := h hFailed
      have hInstalls : (Entry.foreign installed).installs = true := by
        simp [Entry.installs, List.ne_nil_of_mem hKey]
      have hMem : .foreign installed ∈ passage.entries := by simp [entries, hForeign]
      have hSome : 0 < passage.entries.countP Entry.installs :=
        List.countP_pos_iff.mpr ⟨_, hMem, hInstalls⟩
      simpa [hFailed] using hSome

/-- Tallies of the attempts that these passages tell. -/
structure Counters.Explained (passages : List Passage) (c : Counters) : Prop where
  attempts : c.attempts = passages.length
  failures : c.failures = passages.countP Passage.failed
  invalidTxs : c.invalidTxs = 0
  complete : ∀ passage ∈ passages, passage.Complete
  contended : ∀ passage ∈ passages, passage.failed = true → passage.Contended

namespace Counters.Explained

variable {passages more : List Passage} {a b : Counters}

theorem none (assigned canceled : Nat) :
    Explained [] { assigned := assigned, canceledTxs := canceled } where
  attempts := rfl
  failures := rfl
  invalidTxs := rfl
  complete := by simp
  contended := by simp

theorem attempt {passage : Passage} {attempt : Attempt} (h : passage.Tells attempt.outcome) :
    Explained [passage] attempt.counters where
  attempts := rfl
  failures := by
    have hAgrees : passage.failed = !attempt.succeeded := h.agrees
    cases hSucceeded : attempt.succeeded <;>
      simp [Attempt.counters, hSucceeded, hAgrees]
  invalidTxs := if_neg h.valid
  complete := by simpa using h.toComplete
  contended := by simpa using h.contended

theorem add (ha : Explained passages a) (hb : Explained more b) :
    Explained (passages ++ more) (a + b) where
  attempts := by
    rw [List.length_append, ← ha.attempts, ← hb.attempts]
    rfl
  failures := by
    rw [List.countP_append, ← ha.failures, ← hb.failures]
    rfl
  invalidTxs := by
    have hSum : (a + b).invalidTxs = a.invalidTxs + b.invalidTxs := rfl
    rw [hSum, ha.invalidTxs, hb.invalidTxs]
  complete := List.forall_mem_append.mpr ⟨ha.complete, hb.complete⟩
  contended := List.forall_mem_append.mpr ⟨ha.contended, hb.contended⟩

/-- Passages do not overlap, so each failure has a commit of its own. -/
theorem failures_le (h : Explained passages a) :
    a.failures ≤ (passages.flatMap Passage.entries).countP Entry.installs := by
  rw [h.failures]
  have hContended := h.contended
  clear h
  induction passages with
  | nil => exact Nat.le_refl 0
  | cons first rest ih =>
      rw [List.flatMap_cons, List.countP_append, ← List.singleton_append, List.countP_append]
      exact Nat.add_le_add (Passage.installs_of_failed (hContended first List.mem_cons_self))
        (ih fun passage hMem => hContended passage (List.mem_cons_of_mem _ hMem))

end Counters.Explained

section Course

variable {schedule : Schedule} {samples : SampleSet} {entries : List Entry}
  {before after : Interleaving (Journal VersionedStore)}

theorem Store.Tried.explained {tx : Transaction} {left : Nat}
    {tries : Tries (Interleaving (Journal VersionedStore))}
    (h : (Journal.watched schedule).Tried samples tx left before tries after)
    (hBefore : Idle entries before.state) :
    ∃ passages, Counters.Explained passages tries.tally ∧
      Idle (entries ++ passages.flatMap Passage.entries) after.state := by
  induction h generalizing entries with
  | @succeeded left before after attempt hRan hSuccess =>
      obtain ⟨passage, hTells, hAfter⟩ :=
        attempt_told schedule samples tx before hBefore attempt after hRan
      refine ⟨[passage], ?_, by simpa using hAfter⟩
      rw [Tries.tally_succeeded hSuccess]
      exact .attempt hTells
  | @canceled before after attempt hRan hFailure =>
      obtain ⟨passage, hTells, hAfter⟩ :=
        attempt_told schedule samples tx before hBefore attempt after hRan
      refine ⟨[passage], ?_, by simpa using hAfter⟩
      rw [Tries.tally_canceled hFailure]
      exact (Counters.Explained.attempt hTells).add (.none 0 1)
  | @repeated left before after last attempt more hRan hFailure hRest ih =>
      obtain ⟨passage, hTells, hAfter⟩ :=
        attempt_told schedule samples tx before hBefore attempt after hRan
      obtain ⟨passages, hMore, hLast⟩ := ih hAfter
      refine ⟨passage :: passages, ?_, ?_⟩
      · rw [Tries.tally_repeated hFailure]
        exact (Counters.Explained.attempt hTells).add hMore
      · rwa [List.flatMap_cons, ← List.append_assoc]

theorem Store.Replayed.explained {retries : Nat} {transactions : List Transaction}
    {course : Course (Interleaving (Journal VersionedStore))}
    (h : (Journal.watched schedule).Replayed samples retries transactions before course after)
    (hBefore : Idle entries before.state) :
    ∃ passages, Counters.Explained passages course.made ∧
      Idle (entries ++ passages.flatMap Passage.entries) after.state := by
  have hTally : ∃ passages, Counters.Explained passages course.tally ∧
      Idle (entries ++ passages.flatMap Passage.entries) after.state := by
    induction h generalizing entries with
    | nil state => exact ⟨[], .none 0 0, by simpa using hBefore⟩
    | cons hFirst _ ih =>
        obtain ⟨passages, hTells, hMiddle⟩ := hFirst.explained hBefore
        obtain ⟨more, hMore, hAfter⟩ := ih hMiddle
        refine ⟨passages ++ more, ?_, ?_⟩
        · rw [Course.tally_cons]
          exact hTells.add hMore
        · rwa [List.flatMap_append, ← List.append_assoc]
  obtain ⟨passages, hTells, hAfter⟩ := hTally
  exact ⟨passages, (Counters.Explained.none course.length 0).add hTells, hAfter⟩

end Course

namespace VersionedStore

open Store (exists_replayed)

/-- Replay against a store that others use as well gets through its transactions, and the calls that
it made, together with the commits of the others, are its attempts one after the other. Between the
begin and the end of every attempt that failed the others installed a key that the attempt reads or
writes. So there are no more failures than commits that installed something, none of them comes from
a commit of a doomed transaction, and a budget of as many repetitions leaves nothing canceled. -/
theorem replay_fails_by_conflict (actions : List Action) (schedule : Schedule) (samples : SampleSet)
    (transactions : List Transaction)
    (hInRange : ∀ tx ∈ transactions, ∀ cmd ∈ tx, cmd.index < samples.size)
    (retries : Nat) (initial : Tally)
    (hOverflow : (((shared schedule).replay samples transactions retries initial).on
      ⟨(History.after actions).session.store, 0⟩).1 ≠ .error .overflow) :
    ∃ (tally : Tally) (final : VersionedStore) (calls : Nat) (made : Counters)
      (passages : List Passage),
      let entries := passages.flatMap Passage.entries
      ((shared schedule).replay samples transactions retries initial).on
        ⟨(History.after actions).session.store, 0⟩ = (.ok tally, ⟨final, calls⟩) ∧
      ((Journal.watched schedule).replay samples transactions retries initial).on
        ⟨⟨(History.after actions).session.store, []⟩, 0⟩ = (.ok tally, ⟨⟨final, entries⟩, calls⟩) ∧
      tally.counters = initial.counters + made ∧
      made.attempts = passages.length ∧
      made.failures = passages.countP Passage.failed ∧
      (∀ passage ∈ passages, passage.Complete ∧ (passage.failed = true → passage.Contended)) ∧
      made.failures ≤ entries.countP Entry.installs ∧
      made.invalidTxs = 0 ∧
      (entries.countP Entry.installs ≤ retries →
        made.canceledTxs = 0 ∧ made.committed = transactions.length) := by
  have hMirrors := Journal.watched_mirrors schedule
  have hReturns : (Journal.watched schedule).Returns :=
    hMirrors.returns (calls_returns.interleaved _)
  have hIdle : Idle [] ⟨(History.after actions).session.store, []⟩ :=
    ⟨rfl, _, (History.sound_after actions).store⟩
  obtain ⟨course, ⟨⟨final, entries⟩, calls⟩, hCourse⟩ := exists_replayed hReturns hInRange retries
    ⟨⟨(History.after actions).session.store, []⟩, 0⟩
  -- The shared store answers as the watched one, whose journal tells the course of the replay.
  have hSame : ((shared schedule).replay samples transactions retries initial).on
      ⟨(History.after actions).session.store, 0⟩ = _ :=
    hMirrors.replay transactions retries initial
      ⟨⟨(History.after actions).session.store, []⟩, 0⟩
  rw [hSame] at hOverflow ⊢
  obtain ⟨tally, hEnded, hTally⟩ := (hCourse.gained initial).returned hOverflow
  obtain ⟨passages, hExplained, rfl, _⟩ := hCourse.explained hIdle
  have hSettled := hCourse.settled
  refine ⟨tally, final, calls, course.made, passages, ?_⟩
  intro entries
  refine ⟨by rw [hEnded]; rfl, hEnded, hTally, hExplained.attempts, hExplained.failures, ?_,
    hExplained.failures_le, hExplained.invalidTxs, ?_⟩
  · exact fun passage hMem => ⟨hExplained.complete passage hMem, hExplained.contended passage hMem⟩
  · exact fun hBudget => hSettled.all_committed (hExplained.failures_le.trans hBudget)

/-- Others write to the key of a put right before its commit, so that it takes two attempts. -/
theorem replay_fails_by_conflict_once :
    let schedule : Schedule := fun number => if number = 3 then [[([1], some [9])]] else []
    let samples : SampleSet := #[⟨[1], [10]⟩]
    let transactions : List Transaction := [[⟨.put, 0⟩]]
    let result := ((shared schedule).replay samples transactions 1 {}).on
      ⟨(History.after []).session.store, 0⟩
    (∀ tx ∈ transactions, ∀ cmd ∈ tx, cmd.index < samples.size) ∧ result.1 ≠ .error .overflow ∧
      ∃ passages : List Passage, passages.length = 2 ∧ passages.countP Passage.failed = 1 ∧
        ∀ passage ∈ passages, passage.failed = true → passage.Contended := by
  intro schedule samples transactions result
  have hInRange : ∀ tx ∈ transactions, ∀ cmd ∈ tx, cmd.index < samples.size := by decide
  have hRan : result.1.map (fun tally => tally.counters) =
      .ok { assigned := 1, attempts := 2, committed := 1, failures := 1, wwConflicts := 1 } := by
    decide
  have hOverflow : result.1 ≠ .error .overflow := ne_error_of_map_eq_ok hRan .overflow
  obtain ⟨tally, final, calls, made, passages, hPlain, _, hMade, hAttempts, hFailures, hTold, _⟩ :=
    replay_fails_by_conflict [] schedule samples transactions hInRange 1 {} hOverflow
  rw [show result = _ from hPlain] at hRan
  have hTally : tally.counters = made := hMade.trans (zero_add made)
  have hCounters := hTally.symm.trans (Except.ok.inj hRan)
  refine ⟨hInRange, hOverflow, passages, ?_, ?_, fun passage hMem => (hTold passage hMem).2⟩
  · rw [← hAttempts, hCounters]
  · rw [← hFailures, hCounters]

end VersionedStore

end StoreBench
