import StoreBench.Proofs.Replay.Course

/-! The calls that replay makes on a store, as the retry protocol has them. An attempt is a begin,
the call of every command, the question whether the store has given the transaction up, and a commit
if it has not; and attempts at a transaction follow one another until one succeeds or the budget is
used up. A replay that ends in a fault has made the calls of a protocol up to that point. -/
namespace StoreBench

namespace Call

/-- The call as it is written down if it does not return. -/
def unanswered : Call → Call
  | .start => .start
  | .read key _ => .read key none
  | .write key value _ => .write key value none
  | .drop key _ => .drop key none
  | .commit _ => .commit none
  | .doomed _ => .doomed none

/-- Calls that begin a sequence of calls. The last one of them may have got no answer. -/
inductive Begins : List Call → List Call → Prop where
  | nothing (rest : List Call) : Begins [] rest
  | unanswered (call : Call) (rest : List Call) : Begins [call.unanswered] (call :: rest)
  | answered (call : Call) {made rest : List Call} (more : Begins made rest) :
      Begins (call :: made) (call :: rest)

namespace Begins

variable {made calls : List Call}

theorem behind (done : List Call) (h : Begins made calls) :
    Begins (done ++ made) (done ++ calls) := by
  induction done with
  | nil => exact h
  | cons call rest ih => exact .answered call ih

theorem append (h : Begins made calls) (more : List Call) : Begins made (calls ++ more) := by
  induction h with
  | nothing rest => exact .nothing _
  | unanswered call rest => exact .unanswered call _
  | answered call _ ih => exact .answered call ih

theorem refl (calls : List Call) : Begins calls calls := by
  simpa using (nothing []).behind calls

end Begins

end Call

open Call (Begins)

/-- The call that a command makes, with whatever answer. -/
inductive Command.Asks (samples : SampleSet) : Command → Call → Prop where
  | get {index : Nat} {pair : Pair} (found : samples[index]? = some pair) (status : Status) :
      Asks samples ⟨.get, index⟩ (.read pair.key (some status))
  | put {index : Nat} {pair : Pair} (found : samples[index]? = some pair) (status : Status) :
      Asks samples ⟨.put, index⟩ (.write pair.key pair.value (some status))

/-- An attempt as the store sees it: its calls, and what its commit was answered. There is no
outcome if it was given up without a commit. -/
structure Exchange where
  outcome : Option Status
  calls : List Call

namespace Transaction

/-- An attempt at the transaction: one call for each command, in order, whatever the answers to the
earlier ones were, and a commit exactly if the store has not given the transaction up. -/
inductive Exchanged (samples : SampleSet) (tx : Transaction) : Exchange → Prop where
  | givenUp {calls : List Call} (commands : List.Forall₂ (Command.Asks samples) tx calls) :
      Exchanged samples tx ⟨none, .start :: calls ++ [.doomed (some true)]⟩
  | answered {calls : List Call} (commands : List.Forall₂ (Command.Asks samples) tx calls)
      (status : Status) :
      Exchanged samples tx
        ⟨some status, .start :: calls ++ [.doomed (some false), .commit (some status)]⟩

/-- The attempts at a transaction. All of them but the last one fail, and that one succeeds unless
it is the last that the budget allows. -/
structure Protocol (samples : SampleSet) (retries : Nat) (tx : Transaction)
    (exchanges : List Exchange) : Prop where
  exchanged : ∀ exchange ∈ exchanges, tx.Exchanged samples exchange
  some_attempt : 1 ≤ exchanges.length
  budget : exchanges.length ≤ retries + 1
  repeated : ∀ exchange ∈ exchanges.dropLast, exchange.outcome ≠ some .ok
  canceled : ∀ exchange ∈ exchanges.getLast?, exchange.outcome ≠ some .ok →
    exchanges.length = retries + 1

namespace Protocol

variable {samples : SampleSet} {retries : Nat} {tx : Transaction} {exchange : Exchange}
  {exchanges : List Exchange}

/-- A last attempt, which succeeded or had no budget left. -/
theorem last (h : tx.Exchanged samples exchange)
    (hLast : exchange.outcome = some .ok ∨ retries = 0) :
    tx.Protocol samples retries [exchange] where
  exchanged := by simpa using h
  some_attempt := Nat.le_refl 1
  budget := Nat.le_add_left 1 retries
  repeated := by simp
  canceled := by
    intro other hOther hFailed
    cases hOther
    rcases hLast with hOk | rfl
    · exact absurd hOk hFailed
    · rfl

/-- A failed attempt takes one repetition from the budget. -/
theorem cons (h : tx.Exchanged samples exchange) (hFailed : exchange.outcome ≠ some .ok)
    (hMore : tx.Protocol samples retries exchanges) :
    tx.Protocol samples (retries + 1) (exchange :: exchanges) := by
  obtain ⟨hExchanged, hSome, hBudget, hRepeated, hCanceled⟩ := hMore
  have hNe : exchanges ≠ [] := List.length_pos_iff.mp hSome
  refine ⟨List.forall_mem_cons.mpr ⟨h, hExchanged⟩, ?_, ?_, ?_, ?_⟩
  · rw [List.length_cons]
    omega
  · rw [List.length_cons]
    omega
  · rw [List.dropLast_cons_of_ne_nil hNe]
    exact List.forall_mem_cons.mpr ⟨hFailed, hRepeated⟩
  · intro other hOther hOtherFailed
    rw [List.getLast?_cons_of_ne_nil hNe] at hOther
    rw [List.length_cons, hCanceled other hOther hOtherFailed]

end Protocol

section Existence

variable {samples : SampleSet} {tx : Transaction}

/-- The store may answer every command, and so an attempt that was cut short could have gone on. -/
theorem exists_asked (hInRange : ∀ cmd ∈ tx, cmd.index < samples.size) :
    ∃ calls, List.Forall₂ (Command.Asks samples) tx calls := by
  induction tx with
  | nil => exact ⟨[], .nil⟩
  | cons cmd rest ih =>
      obtain ⟨hFirst, hRest⟩ := List.forall_mem_cons.mp hInRange
      obtain ⟨calls, hCalls⟩ := ih hRest
      have hPair := Array.getElem?_eq_getElem hFirst
      obtain ⟨operation, index⟩ := cmd
      cases operation with
      | get => exact ⟨_, .cons (.get hPair .ok) hCalls⟩
      | put => exact ⟨_, .cons (.put hPair .ok) hCalls⟩

theorem exists_protocol (hInRange : ∀ cmd ∈ tx, cmd.index < samples.size) (retries : Nat) :
    ∃ exchanges, tx.Protocol samples retries exchanges := by
  obtain ⟨calls, hCalls⟩ := exists_asked hInRange
  exact ⟨_, .last (.answered hCalls .ok) (.inl rfl)⟩

/-- Every attempt may be the first one of a protocol. -/
theorem Exchanged.exists_protocol {exchange : Exchange} (h : tx.Exchanged samples exchange)
    (hInRange : ∀ cmd ∈ tx, cmd.index < samples.size) (retries : Nat) :
    ∃ more, tx.Protocol samples retries (exchange :: more) := by
  by_cases hOk : exchange.outcome = some .ok
  · exact ⟨[], .last h (.inl hOk)⟩
  · cases retries with
    | zero => exact ⟨[], .last h (.inr rfl)⟩
    | succ retries =>
        obtain ⟨more, hMore⟩ := Transaction.exists_protocol hInRange retries
        exact ⟨more, .cons h hOk hMore⟩

end Existence

end Transaction

namespace Effect

variable {σ α β : Type}

/-- The calls that a computation makes, behind those made before. They are `whole`, together with
its result, if it returned, and `part` if it ended in a fault. -/
def Traced (effect : Effect (Recording σ) α) (whole : α → List Call → Prop)
    (part : List Call → Prop) : Prop :=
  ∀ recording, ∃ made, (effect.on recording).2.calls = made.reverse ++ recording.calls ∧
    match (effect.on recording).1 with
    | .ok result => whole result made
    | .error _ => part made

namespace Traced

variable {whole weaker : α → List Call → Prop} {part more : List Call → Prop}

theorem pure {result : α} (h : whole result []) :
    Traced (pure result : Effect (Recording σ) α) whole part := fun _ => ⟨[], rfl, h⟩

theorem throw (fault : Fault) (h : part []) :
    Traced (throw fault : Effect (Recording σ) α) whole part := fun _ => ⟨[], rfl, h⟩

theorem weaken {effect : Effect (Recording σ) α} (h : effect.Traced whole part)
    (hWhole : ∀ result made, whole result made → weaker result made)
    (hPart : ∀ made, part made → more made) : effect.Traced weaker more := by
  intro recording
  obtain ⟨made, hCalls, hMade⟩ := h recording
  refine ⟨made, hCalls, ?_⟩
  cases hEnded : (effect.on recording).1 with
  | ok result =>
      rw [hEnded] at hMade
      exact hWhole result made hMade
  | error fault =>
      rw [hEnded] at hMade
      exact hPart made hMade

/-- The calls of the second computation come behind those that the first one `done`. -/
theorem bind {first : Effect (Recording σ) α} {next : α → Effect (Recording σ) β}
    {last : β → List Call → Prop} (hFirst : first.Traced whole part)
    (hStopped : ∀ made, part made → more made)
    (hNext : ∀ result done, whole result done →
      (next result).Traced (fun value made => last value (done ++ made))
        fun made => more (done ++ made)) :
    (first >>= next).Traced last more := by
  intro recording
  obtain ⟨done, hCalls, hDone⟩ := hFirst recording
  rcases hRan : first.on recording with ⟨fault | result, reached⟩
  · rw [hRan] at hCalls hDone
    rw [on_bind_error hRan]
    exact ⟨done, hCalls, hStopped done hDone⟩
  · rw [hRan] at hCalls hDone
    obtain ⟨made, hMore, hMade⟩ := hNext result done hDone reached
    rw [on_bind_ok hRan]
    refine ⟨done ++ made, ?_, hMade⟩
    rw [hMore, hCalls, List.reverse_append, List.append_assoc]

theorem noted (effect : Effect σ α) (describe : Option α → Call) :
    Traced (Store.noted effect describe) (fun result made => made = [describe (some result)])
      fun made => made = [describe none] := by
  intro recording
  rw [Store.on_noted]
  refine ⟨[describe (effect.on recording.state).1.toOption], rfl, ?_⟩
  cases (effect.on recording.state).1 with
  | ok result => rfl
  | error fault => rfl

/-- Counting makes no calls. -/
theorem add (tally : Tally) (counters : Counters) :
    Traced (tally.add counters : Effect (Recording σ) Tally) (fun _ made => made = [])
      fun made => made = [] := by
  rw [Tally.add]
  cases tally.counters.add counters with
  | ok sum => exact .pure rfl
  | error fault => exact .throw fault rfl

end Traced

/-- The computation makes calls of this plan, all of them if it returns. -/
def Follows (effect : Effect (Recording σ) α) (plan : List Call → Prop) : Prop :=
  effect.Traced (fun _ made => plan made) fun made => ∃ calls, plan calls ∧ Begins made calls

end Effect

namespace Store

variable {σ τ : Type} (store : Store σ τ) {samples : SampleSet}

theorem command_traced {cmd : Command} (hInRange : cmd.index < samples.size)
    (progress : τ × Attempt) :
    (store.recorded.command samples progress cmd).Traced
      (fun reached made => reached.2.outcome = progress.2.outcome ∧
        ∃ call, cmd.Asks samples call ∧ made = [call])
      fun made => ∃ call, cmd.Asks samples call ∧ made = [call.unanswered] := by
  obtain ⟨handle, attempt⟩ := progress
  have hPair := Array.getElem?_eq_getElem hInRange
  obtain ⟨operation, index⟩ := cmd
  rw [command, hPair]
  cases operation with
  | get =>
      refine .bind (.noted (store.read handle _) _) ?_ ?_
      · rintro _ rfl
        exact ⟨_, .get hPair .ok, rfl⟩
      · rintro ⟨reached, value, status⟩ _ rfl
        exact .pure ⟨rfl, _, .get hPair status, rfl⟩
  | put =>
      refine .bind (.noted (store.write handle _ _) _) ?_ ?_
      · rintro _ rfl
        exact ⟨_, .put hPair .ok, rfl⟩
      · rintro ⟨reached, status⟩ _ rfl
        exact .pure ⟨rfl, _, .put hPair status, rfl⟩

theorem commands_traced {tx : Transaction} (hInRange : ∀ cmd ∈ tx, cmd.index < samples.size)
    (progress : τ × Attempt) :
    (tx.foldlM (store.recorded.command samples) progress).Traced
      (fun reached made => reached.2.outcome = progress.2.outcome ∧
        List.Forall₂ (Command.Asks samples) tx made)
      fun made => ∃ calls, List.Forall₂ (Command.Asks samples) tx calls ∧ Begins made calls := by
  induction tx generalizing progress with
  | nil => exact .pure ⟨rfl, .nil⟩
  | cons cmd rest ih =>
      obtain ⟨hFirst, hRest⟩ := List.forall_mem_cons.mp hInRange
      rw [List.foldlM_cons]
      refine .bind (store.command_traced hFirst progress) ?_ ?_
      · rintro _ ⟨call, hCall, rfl⟩
        obtain ⟨calls, hCalls⟩ := Transaction.exists_asked hRest
        exact ⟨call :: calls, .cons hCall hCalls, .unanswered call calls⟩
      · rintro reached _ ⟨hSame, call, hCall, rfl⟩
        refine (ih hRest reached).weaken ?_ ?_
        · rintro last made ⟨hOutcome, hMade⟩
          exact ⟨hOutcome.trans hSame, .cons hCall hMade⟩
        · rintro made ⟨calls, hCalls, hBegins⟩
          exact ⟨call :: calls, .cons hCall hCalls, .answered call hBegins⟩

theorem attempt_traced {tx : Transaction} (hInRange : ∀ cmd ∈ tx, cmd.index < samples.size) :
    (store.recorded.attempt samples tx).Traced
      (fun attempt made => tx.Exchanged samples ⟨attempt.outcome, made⟩)
      fun made => ∃ exchange, tx.Exchanged samples exchange ∧ Begins made exchange.calls := by
  refine .bind (.noted store.start fun _ => .start) ?_ ?_
  · rintro _ rfl
    obtain ⟨calls, hCalls⟩ := Transaction.exists_asked hInRange
    exact ⟨_, .answered hCalls .ok, .answered .start (.nothing _)⟩
  rintro handle _ rfl
  refine .bind (store.commands_traced hInRange (handle, {})) ?_ ?_
  · rintro made ⟨calls, hCalls, hBegins⟩
    exact ⟨_, .answered hCalls .ok, .answered .start (hBegins.append _)⟩
  rintro ⟨reached, attempt⟩ calls ⟨hOutcome, hCalls⟩
  refine .bind (.noted (store.doomed reached) .doomed) ?_ ?_
  · rintro _ rfl
    refine ⟨_, .givenUp hCalls, .answered .start ?_⟩
    exact Begins.behind calls (.unanswered (.doomed (some true)) [])
  rintro given _ rfl
  cases given with
  | true =>
      refine .pure ?_
      rw [show attempt.outcome = none from hOutcome]
      exact .givenUp hCalls
  | false =>
      refine .bind (.noted (store.commit reached) .commit) ?_ ?_
      · rintro _ rfl
        refine ⟨_, .answered hCalls .ok, .answered .start (Begins.behind calls ?_)⟩
        exact .answered _ (.unanswered (.commit (some .ok)) [])
      · rintro status _ rfl
        exact .pure (.answered hCalls status)

/-- These are the calls of attempts at the transaction, one attempt after the other. -/
def SettledBy (samples : SampleSet) (retries : Nat) (tx : Transaction) (calls : List Call) : Prop :=
  ∃ exchanges, tx.Protocol samples retries exchanges ∧ calls = exchanges.flatMap Exchange.calls

/-- What comes behind an attempt, once it is counted, decides how the protocol goes on. -/
theorem attempt_follows {tx : Transaction} (hInRange : ∀ cmd ∈ tx, cmd.index < samples.size)
    {left : Nat} {tally : Tally} {next : Attempt → Tally → Effect (Recording σ) Tally}
    (hNext : ∀ attempt counted done, tx.Exchanged samples ⟨attempt.outcome, done⟩ →
      (next attempt counted).Traced (fun _ made => SettledBy samples left tx (done ++ made))
        fun made => ∃ calls, SettledBy samples left tx calls ∧ Begins (done ++ made) calls) :
    Effect.Follows (do
      let attempt ← store.recorded.attempt samples tx
      let counted ← tally.add attempt.counters
      next attempt counted) (SettledBy samples left tx) := by
  refine .bind (store.attempt_traced hInRange) ?_ ?_
  · rintro made ⟨exchange, hExchanged, hBegins⟩
    obtain ⟨more, hProtocol⟩ := hExchanged.exists_protocol hInRange left
    exact ⟨_, ⟨_, hProtocol, List.flatMap_cons⟩, hBegins.append _⟩
  intro attempt done hExchanged
  refine .bind (.add tally attempt.counters) ?_ ?_
  · rintro _ rfl
    obtain ⟨more, hProtocol⟩ := hExchanged.exists_protocol hInRange left
    refine ⟨_, ⟨_, hProtocol, List.flatMap_cons⟩, ?_⟩
    rw [List.append_nil]
    exact (Begins.refl done).append _
  · rintro counted _ rfl
    exact hNext attempt counted done hExchanged

theorem settle_follows {tx : Transaction} (hInRange : ∀ cmd ∈ tx, cmd.index < samples.size)
    (budget place left : Nat) (tally : Tally) :
    (store.recorded.settle samples budget place tx left tally).Follows
      (SettledBy samples left tx) := by
  have hDone {left : Nat} {attempt : Attempt} {done : List Call}
      (hExchanged : tx.Exchanged samples ⟨attempt.outcome, done⟩)
      (hLast : attempt.outcome = some .ok ∨ left = 0) :
      SettledBy samples left tx (done ++ []) :=
    ⟨_, .last hExchanged hLast, by simp⟩
  induction left generalizing tally with
  | zero =>
      rw [settle]
      refine store.attempt_follows hInRange ?_
      intro attempt counted done hExchanged
      have hSettled := hDone hExchanged (.inr rfl)
      split
      · exact .pure hSettled
      · refine (Effect.Traced.add counted _).weaken ?_ ?_
        · rintro _ _ rfl
          exact hSettled
        · rintro _ rfl
          exact ⟨_, hSettled, .refl _⟩
  | succ left ih =>
      rw [settle]
      refine store.attempt_follows hInRange ?_
      intro attempt counted done hExchanged
      cases hSucceeded : attempt.succeeded with
      | true =>
          have hOk : attempt.outcome = some .ok := by simpa [Attempt.succeeded] using hSucceeded
          exact .pure (hDone hExchanged (.inl hOk))
      | false =>
          have hFailed : attempt.outcome ≠ some .ok := by simpa [Attempt.succeeded] using hSucceeded
          refine (ih _).weaken ?_ ?_
          · rintro _ made ⟨exchanges, hProtocol, rfl⟩
            exact ⟨_, .cons hExchanged hFailed hProtocol, rfl⟩
          · rintro made ⟨_, ⟨exchanges, hProtocol, rfl⟩, hBegins⟩
            exact ⟨_, ⟨_, .cons hExchanged hFailed hProtocol, rfl⟩, hBegins.behind done⟩

/-- These are the calls of attempts at the transactions, one transaction after the other. -/
def ReplayedBy (samples : SampleSet) (retries : Nat) (transactions : List Transaction)
    (calls : List Call) : Prop :=
  ∃ attempts, List.Forall₂ (Transaction.Protocol samples retries) transactions attempts ∧
    calls = attempts.flatten.flatMap Exchange.calls

theorem ReplayedBy.cons {retries : Nat} {tx : Transaction} {rest : List Transaction}
    {calls more : List Call} (hFirst : SettledBy samples retries tx calls)
    (hRest : ReplayedBy samples retries rest more) :
    ReplayedBy samples retries (tx :: rest) (calls ++ more) := by
  obtain ⟨exchanges, hProtocol, rfl⟩ := hFirst
  obtain ⟨attempts, hAttempts, rfl⟩ := hRest
  exact ⟨_, .cons hProtocol hAttempts, by rw [List.flatten_cons, List.flatMap_append]⟩

theorem exists_replayedBy {transactions : List Transaction}
    (hInRange : ∀ tx ∈ transactions, ∀ cmd ∈ tx, cmd.index < samples.size) (retries : Nat) :
    ∃ calls, ReplayedBy samples retries transactions calls := by
  induction transactions with
  | nil => exact ⟨[], [], .nil, rfl⟩
  | cons tx rest ih =>
      obtain ⟨hFirst, hRest⟩ := List.forall_mem_cons.mp hInRange
      obtain ⟨calls, hCalls⟩ := ih hRest
      obtain ⟨exchanges, hProtocol⟩ := Transaction.exists_protocol hFirst retries
      exact ⟨_, .cons ⟨exchanges, hProtocol, rfl⟩ hCalls⟩

theorem replay_follows {transactions : List Transaction}
    (hInRange : ∀ tx ∈ transactions, ∀ cmd ∈ tx, cmd.index < samples.size) (retries : Nat)
    (initial : Tally) :
    (store.recorded.replay samples transactions retries initial).Follows
      (ReplayedBy samples retries transactions) := by
  have general (place : Nat) (counted : Tally) :
      ((transactions.zipIdx place).foldlM
        (fun tally entry => store.recorded.settle samples retries entry.2 entry.1 retries tally)
        counted).Follows (ReplayedBy samples retries transactions) := by
    induction transactions generalizing place counted with
    | nil => exact .pure ⟨[], .nil, rfl⟩
    | cons tx rest ih =>
        obtain ⟨hFirst, hRest⟩ := List.forall_mem_cons.mp hInRange
        rw [List.zipIdx_cons, List.foldlM_cons]
        refine .bind (store.settle_follows hFirst retries place retries counted) ?_ ?_
        · rintro made ⟨calls, hCalls, hBegins⟩
          obtain ⟨more, hMore⟩ := exists_replayedBy hRest retries
          exact ⟨_, .cons hCalls hMore, hBegins.append more⟩
        · intro reached done hDone
          refine (ih hRest (place + 1) reached).weaken ?_ ?_
          · intro _ made hMade
            exact .cons hDone hMade
          · rintro made ⟨calls, hCalls, hBegins⟩
            exact ⟨_, .cons hDone hCalls, hBegins.behind done⟩
  refine .bind (.add initial _) ?_ ?_
  · rintro _ rfl
    obtain ⟨calls, hCalls⟩ := exists_replayedBy hInRange retries
    exact ⟨calls, hCalls, .nothing calls⟩
  · rintro counted _ rfl
    exact general 0 counted

/-- The calls that replay makes are those of the retry protocol. The transactions come one after the
other and the attempts at each of them one after the other, at least one and at most `retries + 1`;
all but the last of them fail, and the last one fails only if the budget is used up. An attempt
calls for every command of its transaction, whatever the answers, and for a commit exactly if the
store has not given the transaction up; it succeeds exactly if that commit is answered OK. A replay
that returns has made all these calls, and one that ends in a fault the first of them. As long as the
store's calls return, no fault but an overflow of the tallies ends a replay. -/
theorem replay_follows_protocol (store : Store σ τ) (samples : SampleSet)
    (transactions : List Transaction)
    (hInRange : ∀ tx ∈ transactions, ∀ cmd ∈ tx, cmd.index < samples.size) (retries : Nat)
    (initial : Tally) (state : σ) :
    ∃ (ended : Except Fault Tally) (final : σ) (calls : List Call)
      (attempts : List (List Exchange)),
      (store.replay samples transactions retries initial).on state = (ended, final) ∧
      (store.recorded.replay samples transactions retries initial).on ⟨state, []⟩ =
        (ended, ⟨final, calls.reverse⟩) ∧
      List.Forall₂ (Transaction.Protocol samples retries) transactions attempts ∧
      Begins calls (attempts.flatten.flatMap Exchange.calls) ∧
      (∀ tally, ended = .ok tally → calls = attempts.flatten.flatMap Exchange.calls) ∧
      (store.Returns → ended ≠ .error .overflow → ∃ tally, ended = .ok tally) := by
  have hReturned : store.Returns →
      ((store.replay samples transactions retries initial).on state).1 ≠ .error .overflow →
      ∃ tally, ((store.replay samples transactions retries initial).on state).1 = .ok tally := by
    intro hReturns hOverflow
    obtain ⟨course, final, hCourse⟩ := exists_replayed hReturns hInRange retries state
    obtain ⟨tally, hEnded, _⟩ := (hCourse.gained initial).returned hOverflow
    exact ⟨tally, by rw [hEnded]⟩
  have hSame : (store.replay samples transactions retries initial).on state = _ :=
    store.recorded_mirrors.replay transactions retries initial ⟨state, []⟩
  rw [hSame] at hReturned ⊢
  obtain ⟨calls, hCalls, hMade⟩ := store.replay_follows hInRange retries initial ⟨state, []⟩
  rcases hRan : (store.recorded.replay samples transactions retries initial).on ⟨state, []⟩ with
    ⟨ended, final, made⟩
  rw [hRan] at hReturned hCalls hMade
  obtain rfl : made = calls.reverse := hCalls.trans (List.append_nil _)
  cases ended with
  | ok tally =>
      obtain ⟨attempts, hAttempts, rfl⟩ := hMade
      exact ⟨.ok tally, final, _, attempts, rfl, rfl, hAttempts, .refl _, fun _ _ => rfl, hReturned⟩
  | error fault =>
      obtain ⟨_, ⟨attempts, hAttempts, rfl⟩, hBegins⟩ := hMade
      refine ⟨.error fault, final, calls, attempts, rfl, rfl, hAttempts, hBegins, ?_, hReturned⟩
      intro tally hOk
      cases hOk

/-- The first transaction commits at its second attempt. The second one is given up by the store,
then refused, and canceled after that. -/
theorem replay_follows_protocol_refused :
    let store := Script.store
      { reads := [.valueNotFound], commits := [.wwConflict, .ok], dooms := [false, false, true] }
    let samples : SampleSet := #[⟨[1], [10]⟩, ⟨[2], [20]⟩]
    let transactions : List Transaction := [[⟨.get, 0⟩, ⟨.put, 1⟩], [⟨.put, 0⟩]]
    let made : List Call :=
      [.start, .read [1] (some .valueNotFound), .write [2] [20] (some .ok), .doomed (some false),
        .commit (some .wwConflict),
       .start, .read [1] (some .valueNotFound), .write [2] [20] (some .ok), .doomed (some false),
        .commit (some .ok),
       .start, .write [1] [10] (some .ok), .doomed (some true),
       .start, .write [1] [10] (some .ok), .doomed (some false), .commit (some .wwConflict)]
    (∀ tx ∈ transactions, ∀ cmd ∈ tx, cmd.index < samples.size) ∧
      ((store.recorded.replay samples transactions 1 {}).on ⟨{}, []⟩).2.calls.reverse = made ∧
      ∃ attempts, List.Forall₂ (Transaction.Protocol samples 1) transactions attempts ∧
        attempts.flatten.flatMap Exchange.calls = made := by
  intro store samples transactions made
  have hInRange : ∀ tx ∈ transactions, ∀ cmd ∈ tx, cmd.index < samples.size := by decide
  have hRan : ((store.recorded.replay samples transactions 1 {}).on ⟨{}, []⟩).1.map
      Tally.counters = .ok
      { assigned := 2, attempts := 4, committed := 1, failures := 3, wwConflicts := 2,
        readSnapshotMisses := 2, canceledTxs := 1 } := by decide +kernel
  have hCalls : ((store.recorded.replay samples transactions 1 {}).on
      ⟨{}, []⟩).2.calls.reverse = made := by decide +kernel
  obtain ⟨ended, final, calls, attempts, _, hRecorded, hAttempts, _, hWhole, _⟩ :=
    replay_follows_protocol store samples transactions hInRange 1 {} {}
  refine ⟨hInRange, hCalls, attempts, hAttempts, ?_⟩
  rw [hRecorded] at hRan hCalls
  rw [List.reverse_reverse] at hCalls
  cases ended with
  | error fault => cases hRan
  | ok tally => exact (hWhole tally rfl).symm.trans hCalls

end Store

end StoreBench
