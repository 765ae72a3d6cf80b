import StoreBench.Proofs.Counters
import StoreBench.Proofs.Store.Effect
import StoreBench.Replay

/-! The course of a replay: all its attempts in order, each with the states of the store before and
after it. What replay counts is a sum over the course, and the retry budget is a law about the
attempts at one transaction. -/
namespace StoreBench

/-- One attempt at a transaction. -/
structure Try (σ : Type) where
  before : σ
  attempt : Attempt
  after : σ

/-- The attempts at one transaction, the first one first. -/
abbrev Tries (σ : Type) := List (Try σ)

/-- The attempts at the transactions of a list. -/
abbrev Course (σ : Type) := List (Tries σ)

variable {σ τ : Type}

/-- What the attempts at one transaction add to the tallies. It is canceled if none succeeded. -/
def Tries.tally (tries : Tries σ) : Counters :=
  (tries.map fun t => t.attempt.counters).sum +
    if tries.any fun t => t.attempt.succeeded then 0 else { canceledTxs := 1 }

def Course.tally (course : Course σ) : Counters := (course.map Tries.tally).sum

namespace Tries

variable {last : Try σ} {more : Tries σ}

theorem tally_succeeded (h : last.attempt.succeeded = true) :
    tally [last] = last.attempt.counters := by
  simp [tally, h]

theorem tally_canceled (h : last.attempt.succeeded = false) :
    tally [last] = last.attempt.counters + { canceledTxs := 1 } := by
  simp [tally, h]

theorem tally_repeated (h : last.attempt.succeeded = false) :
    tally (last :: more) = last.attempt.counters + tally more := by
  simp [tally, h, add_assoc]

/-- Attempts assign nothing. -/
theorem tally_assigned (tries : Tries σ) : tries.tally.assigned = 0 := by
  have hZero : ∀ assigned ∈ (tries.map fun t => t.attempt.counters).map Counters.assigned,
      assigned = 0 := by simp [Attempt.counters]
  have hSum := Counters.assigned_sum (tries.map fun t => t.attempt.counters)
  rw [List.sum_eq_zero hZero] at hSum
  rw [tally, Counters.add_def, Counters.plus]
  simp only [hSum]
  split <;> rfl

end Tries

@[simp] theorem Course.tally_cons (tries : Tries σ) (course : Course σ) :
    Course.tally (tries :: course) = tries.tally + course.tally := List.sum_cons

theorem Course.tally_assigned (course : Course σ) : course.tally.assigned = 0 := by
  have hZero : ∀ assigned ∈ (course.map Tries.tally).map Counters.assigned, assigned = 0 := by
    simp [Tries.tally_assigned]
  rw [Course.tally, Counters.assigned_sum, List.sum_eq_zero hZero]

/-- What a replay with this course adds to the tallies. Its transactions count as assigned before
the first attempt. -/
def Course.made (course : Course σ) : Counters := { assigned := course.length } + course.tally

theorem Course.made_assigned (course : Course σ) : course.made.assigned = course.length :=
  congrArg (course.length + ·) course.tally_assigned

theorem Course.made_append (course more : Course σ) :
    Course.made (course ++ more) = course.made + more.made := by
  have hAssigned : ({ assigned := (course ++ more).length } : Counters) =
      { assigned := course.length } + { assigned := more.length } := by
    rw [List.length_append]
    rfl
  rw [made, made, made, hAssigned, tally, List.map_append, List.sum_append]
  exact add_add_add_comm _ _ _ _

namespace Store

variable (store : Store σ τ) (samples : SampleSet)

/-- These are the attempts at a transaction when `left` repetitions are left. Another one follows
exactly if one failed and a repetition is left, and it starts where that one ended. -/
inductive Tried (tx : Transaction) : Nat → σ → Tries σ → σ → Prop where
  | succeeded {left : Nat} {before after : σ} {attempt : Attempt}
      (ran : (store.attempt samples tx).on before = (.ok attempt, after))
      (success : attempt.succeeded = true) :
      Tried tx left before [⟨before, attempt, after⟩] after
  | canceled {before after : σ} {attempt : Attempt}
      (ran : (store.attempt samples tx).on before = (.ok attempt, after))
      (failure : attempt.succeeded = false) :
      Tried tx 0 before [⟨before, attempt, after⟩] after
  | repeated {left : Nat} {before after last : σ} {attempt : Attempt} {more : Tries σ}
      (ran : (store.attempt samples tx).on before = (.ok attempt, after))
      (failure : attempt.succeeded = false) (rest : Tried tx left after more last) :
      Tried tx (left + 1) before (⟨before, attempt, after⟩ :: more) last

/-- This is the course of a replay, from one state to another. -/
inductive Replayed (retries : Nat) : List Transaction → σ → Course σ → σ → Prop where
  | nil (state : σ) : Replayed retries [] state [] state
  | cons {tx : Transaction} {rest : List Transaction} {before middle after : σ} {tries : Tries σ}
      {course : Course σ} (first : store.Tried samples tx retries before tries middle)
      (more : Replayed retries rest middle course after) :
      Replayed retries (tx :: rest) before (tries :: course) after

section Existence

variable {store samples}

theorem command_returns (h : store.Returns) {cmd : Command} (hInRange : cmd.index < samples.size)
    (progress : τ × Attempt) : (store.command samples progress cmd).Returns := by
  obtain ⟨handle, attempt⟩ := progress
  rw [command, Array.getElem?_eq_getElem hInRange]
  cases cmd.operation with
  | get => exact .bind (h.read handle _) fun _ => .pure _
  | put => exact .bind (h.write handle _ _) fun _ => .pure _

theorem attempt_returns (h : store.Returns) {tx : Transaction}
    (hInRange : ∀ cmd ∈ tx, cmd.index < samples.size) : (store.attempt samples tx).Returns := by
  refine .bind h.start fun handle => .bind (.foldlM ?_ _) fun progress => .bind (h.doomed _) ?_
  · intro cmd hCmd progress
    exact command_returns h (hInRange cmd hCmd) progress
  · intro given
    cases given with
    | true => exact .pure _
    | false => exact .bind (h.commit _) fun _ => .pure _

theorem exists_tried (h : store.Returns) {tx : Transaction}
    (hInRange : ∀ cmd ∈ tx, cmd.index < samples.size) (left : Nat) (before : σ) :
    ∃ tries after, store.Tried samples tx left before tries after := by
  induction left generalizing before with
  | zero =>
      obtain ⟨attempt, after, hRan⟩ := attempt_returns h hInRange before
      cases hSucceeded : attempt.succeeded with
      | true => exact ⟨_, after, .succeeded hRan hSucceeded⟩
      | false => exact ⟨_, after, .canceled hRan hSucceeded⟩
  | succ left ih =>
      obtain ⟨attempt, after, hRan⟩ := attempt_returns h hInRange before
      cases hSucceeded : attempt.succeeded with
      | true => exact ⟨_, after, .succeeded hRan hSucceeded⟩
      | false =>
          obtain ⟨more, last, hRest⟩ := ih after
          exact ⟨_, last, .repeated hRan hSucceeded hRest⟩

/-- A replay of valid transactions on a store whose calls return has a course. -/
theorem exists_replayed (h : store.Returns) {transactions : List Transaction}
    (hInRange : ∀ tx ∈ transactions, ∀ cmd ∈ tx, cmd.index < samples.size) (retries : Nat)
    (before : σ) :
    ∃ course after, store.Replayed samples retries transactions before course after := by
  induction transactions generalizing before with
  | nil => exact ⟨[], before, .nil before⟩
  | cons tx rest ih =>
      obtain ⟨tries, middle, hFirst⟩ :=
        exists_tried h (hInRange tx List.mem_cons_self) retries before
      obtain ⟨course, after, hMore⟩ :=
        ih (fun other hOther => hInRange other (List.mem_cons_of_mem _ hOther)) middle
      exact ⟨tries :: course, after, .cons hFirst hMore⟩

end Existence

section Observation

variable {store samples} {ρ : Type} {view : ρ → σ} {wide : Store ρ τ}

theorem Mirrors.command (h : Mirrors view wide store) (progress : τ × Attempt) (cmd : Command) :
    Effect.Mirrors view (wide.command samples progress cmd)
      (store.command samples progress cmd) := by
  obtain ⟨handle, attempt⟩ := progress
  rw [Store.command, Store.command]
  cases samples[cmd.index]? with
  | none => exact .throw _
  | some pair =>
      cases cmd.operation with
      | get => exact .bind (h.read handle pair.key) fun _ => .pure _
      | put => exact .bind (h.write handle pair.key pair.value) fun _ => .pure _

theorem Mirrors.attempt (h : Mirrors view wide store) (tx : Transaction) :
    Effect.Mirrors view (wide.attempt samples tx) (store.attempt samples tx) := by
  refine .bind h.start fun handle => .bind (.foldlM h.command _) fun progress =>
    .bind (h.doomed _) fun given => ?_
  cases given with
  | true => exact .pure _
  | false => exact .bind (h.commit _) fun _ => .pure _

theorem add_mirrors (tally : Tally) (more : Counters) :
    Effect.Mirrors view (tally.add more) (tally.add more) := by
  rw [Tally.add, Tally.add]
  cases tally.counters.add more with
  | ok counters => exact .pure _
  | error fault => exact .throw fault

theorem Mirrors.settle (h : Mirrors view wide store) (budget place : Nat) (tx : Transaction)
    (left : Nat) (tally : Tally) :
    Effect.Mirrors view (wide.settle samples budget place tx left tally)
      (store.settle samples budget place tx left tally) := by
  induction left generalizing tally with
  | zero =>
      refine .bind (h.attempt tx) fun attempt => .bind (add_mirrors tally _) fun counted => ?_
      cases attempt.succeeded with
      | true => exact .pure counted
      | false => exact add_mirrors counted _
  | succ left ih =>
      refine .bind (h.attempt tx) fun attempt => .bind (add_mirrors tally _) fun counted => ?_
      cases attempt.succeeded with
      | true => exact .pure counted
      | false => exact ih _

/-- Replay cannot tell an observed store from the store itself. -/
theorem Mirrors.replay (h : Mirrors view wide store) (transactions : List Transaction)
    (retries : Nat) (tally : Tally) :
    Effect.Mirrors view (wide.replay samples transactions retries tally)
      (store.replay samples transactions retries tally) := by
  refine .bind (add_mirrors tally _) fun counted => .foldlM ?_ counted
  rintro tally ⟨tx, place⟩
  exact h.settle retries place tx retries tally

end Observation

end Store

section Tallies

/-- A computation that ended with `more` on top of the tallies and left the state `final`. If that
is more than a word holds, it ended in an overflow. -/
def Tally.Gained (tally : Tally) (more : Counters) (final : σ) (ended : Except Fault Tally × σ) :
    Prop :=
  ended.1.map (·.counters) = tally.counters.add more ∧
    ∀ result, ended.1 = .ok result → ended.2 = final

namespace Tally.Gained

variable {tally : Tally} {state middle final : σ} {more rest : Counters}

theorem pure (hFits : tally.counters.fits = true) :
    tally.Gained 0 state ((Pure.pure tally : Effect σ Tally).on state) := by
  refine ⟨?_, fun _ _ => rfl⟩
  rw [Counters.add_eq_ok (by rwa [add_zero]), add_zero]
  rfl

theorem add (tally : Tally) (more : Counters) (state : σ) :
    tally.Gained more state ((tally.add more).on state) := by
  rw [Gained, Tally.add]
  cases tally.counters.add more with
  | ok counters => exact ⟨rfl, fun _ _ => rfl⟩
  | error fault => exact ⟨rfl, fun _ _ => rfl⟩

theorem bind {first : Effect σ Tally} {next : Tally → Effect σ Tally}
    (hFirst : tally.Gained more middle (first.on state))
    (hNext : ∀ reached : Tally, reached.counters = tally.counters + more →
      reached.counters.fits = true → reached.Gained rest final ((next reached).on middle)) :
    tally.Gained (more + rest) final ((first >>= next).on state) := by
  obtain ⟨hCounters, hState⟩ := hFirst
  rw [Gained, ← Counters.add_bind_add, ← hCounters]
  rcases hRan : first.on state with ⟨fault | reached, left⟩
  · rw [Effect.on_bind_error hRan]
    exact ⟨rfl, fun _ hOk => nomatch hOk⟩
  · rw [hRan] at hCounters hState
    obtain rfl : left = middle := hState reached rfl
    have hAdded : tally.counters.add more = .ok reached.counters := hCounters.symm
    obtain ⟨hFits, hSum⟩ := Counters.add_ok_iff.mp hAdded
    rw [← hSum] at hFits
    rw [Effect.on_bind_ok hRan]
    exact hNext reached hSum hFits

/-- A computation whose tallies are words to the end returned. -/
theorem of_fits {ended : Except Fault Tally × σ} (h : tally.Gained more final ended)
    (hFits : (tally.counters + more).fits = true) :
    ∃ result : Tally, ended = (.ok result, final) ∧ result.counters = tally.counters + more := by
  obtain ⟨hCounters, hState⟩ := h
  rw [Counters.add_eq_ok hFits] at hCounters
  cases hEnded : ended.1 with
  | error fault =>
      rw [hEnded] at hCounters
      cases hCounters
  | ok result =>
      rw [hEnded] at hCounters
      exact ⟨result, Prod.ext hEnded (hState result hEnded), Except.ok.inj hCounters⟩

/-- A tally that no word holds is an overflow. -/
theorem fits_of_ne_overflow {ended : Except Fault Tally × σ} (h : tally.Gained more final ended)
    (hOverflow : ended.1 ≠ .error .overflow) : (tally.counters + more).fits = true := by
  by_contra hOver
  obtain ⟨hCounters, _⟩ := h
  rw [Counters.add_eq_error (Bool.eq_false_iff.mpr hOver)] at hCounters
  cases hEnded : ended.1 with
  | error fault =>
      rw [hEnded] at hCounters hOverflow
      exact hOverflow (congrArg Except.error (Except.error.inj hCounters))
  | ok result =>
      rw [hEnded] at hCounters
      cases hCounters

/-- Unless a tally overflowed, the computation returned. -/
theorem returned {ended : Except Fault Tally × σ} (h : tally.Gained more final ended)
    (hOverflow : ended.1 ≠ .error .overflow) :
    ∃ result : Tally, ended = (.ok result, final) ∧ result.counters = tally.counters + more :=
  h.of_fits (h.fits_of_ne_overflow hOverflow)

end Tally.Gained

namespace Store

variable {store : Store σ τ} {samples : SampleSet}

theorem Tried.gained {tx : Transaction} {left : Nat} {before after : σ} {tries : Tries σ}
    (h : store.Tried samples tx left before tries after) (budget place : Nat) (tally : Tally) :
    tally.Gained tries.tally after
      ((store.settle samples budget place tx left tally).on before) := by
  induction h generalizing tally with
  | @succeeded left before after attempt hRan hSuccess =>
      rw [Tries.tally_succeeded hSuccess, ← add_zero attempt.counters]
      cases left with
      | zero =>
          rw [settle, Effect.on_bind_ok hRan]
          refine .bind (.add tally _ after) fun reached _ hFits => ?_
          rw [if_pos hSuccess]
          exact .pure hFits
      | succ left =>
          rw [settle, Effect.on_bind_ok hRan]
          refine .bind (.add tally _ after) fun reached _ hFits => ?_
          rw [if_pos hSuccess]
          exact .pure hFits
  | @canceled before after attempt hRan hFailure =>
      rw [Tries.tally_canceled hFailure, settle, Effect.on_bind_ok hRan]
      refine .bind (.add tally _ after) fun reached _ _ => ?_
      rw [if_neg (Bool.eq_false_iff.mp hFailure)]
      exact .add reached _ after
  | @repeated left before after last attempt more hRan hFailure hRest ih =>
      rw [Tries.tally_repeated hFailure, settle, Effect.on_bind_ok hRan]
      refine .bind (.add tally _ after) fun reached _ _ => ?_
      rw [if_neg (Bool.eq_false_iff.mp hFailure)]
      exact ih (reached.note _)

theorem Replayed.length {retries : Nat} {transactions : List Transaction} {before after : σ}
    {course : Course σ} (h : store.Replayed samples retries transactions before course after) :
    course.length = transactions.length := by
  induction h with
  | nil state => rfl
  | cons _ _ ih => rw [List.length_cons, List.length_cons, ih]

/-- A replay goes on where an earlier one ended. -/
theorem Replayed.append {retries : Nat} {transactions more : List Transaction}
    {before middle after : σ} {course rest : Course σ}
    (first : store.Replayed samples retries transactions before course middle)
    (second : store.Replayed samples retries more middle rest after) :
    store.Replayed samples retries (transactions ++ more) before (course ++ rest) after := by
  induction first with
  | nil state => exact second
  | cons hTried _ ih => exact .cons hTried (ih second)

/-- Replay adds the tallies of its course to those it starts with, and nothing else. -/
theorem Replayed.gained {retries : Nat} {transactions : List Transaction} {before after : σ}
    {course : Course σ} (h : store.Replayed samples retries transactions before course after)
    (tally : Tally) :
    tally.Gained course.made after
      ((store.replay samples transactions retries tally).on before) := by
  have general (place : Nat) (start : Tally) (hFits : start.counters.fits = true) :
      start.Gained course.tally after (((transactions.zipIdx place).foldlM
        (fun tally entry => store.settle samples retries entry.2 entry.1 retries tally)
        start : Effect σ Tally).on before) := by
    induction h generalizing place start with
    | nil state => exact .pure hFits
    | cons hFirst _ ih =>
        rw [List.zipIdx_cons, List.foldlM_cons, Course.tally_cons]
        exact .bind (hFirst.gained retries place start) fun reached _ hReached =>
          ih (place + 1) reached hReached
  rw [Course.made, h.length]
  exact .bind (.add tally _ before) fun reached _ hFits => general 0 reached hFits

section Fresh

variable {retries : Nat} {transactions : List Transaction} {before after : σ} {course : Course σ}

/-- Replay without earlier tallies counts what its course made. -/
theorem Replayed.counted (h : store.Replayed samples retries transactions before course after)
    (hFits : course.made.fits = true) :
    ∃ tally : Tally,
      (store.replay samples transactions retries {}).on before = (.ok tally, after) ∧
      tally.counters = course.made := by
  have hSum : ({} : Tally).counters + course.made = course.made := zero_add _
  obtain ⟨tally, hEnded, hTally⟩ := (h.gained {}).of_fits (by rwa [hSum])
  exact ⟨tally, hEnded, hTally.trans hSum⟩

theorem Replayed.fits_of_ne_overflow
    (h : store.Replayed samples retries transactions before course after)
    (hOverflow : ((store.replay samples transactions retries {}).on before).1 ≠
      .error .overflow) : course.made.fits = true := by
  have hSum : ({} : Tally).counters + course.made = course.made := zero_add _
  rw [← hSum]
  exact (h.gained {}).fits_of_ne_overflow hOverflow

end Fresh

end Store

end Tallies

end StoreBench
