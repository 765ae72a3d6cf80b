import StoreBench.Proofs.Outcome
import StoreBench.Store.Interleaved
import StoreBench.Store.Recorded
import StoreBench.Store.Scripted
import StoreBench.Store.Versioned

/-! Computations on a store, opened call by call. A computation that returns does so from every
state. One that mirrors another does the same on a larger state: an observer may keep what it likes
beside the store, as long as no answer depends on it. -/
namespace StoreBench

namespace Effect

variable {σ ρ α β : Type}

theorem on_bind_ok {first : Effect σ α} {state reached : σ} {result : α}
    (h : first.on state = (.ok result, reached)) (next : α → Effect σ β) :
    (first >>= next).on state = (next result).on reached := by
  change ExceptT.bindCont next (first.on state).1 (first.on state).2 = _
  rw [h]
  rfl

theorem on_bind_error {first : Effect σ α} {state reached : σ} {fault : Fault}
    (h : first.on state = (.error fault, reached)) (next : α → Effect σ β) :
    (first >>= next).on state = (.error fault, reached) := by
  change ExceptT.bindCont next (first.on state).1 (first.on state).2 = _
  rw [h]
  rfl

/-- A computation that came to a result did so step by step. -/
theorem on_bind_eq_ok {first : Effect σ α} {next : α → Effect σ β} {state last : σ} {result : β}
    (h : (first >>= next).on state = (.ok result, last)) :
    ∃ middle reached, first.on state = (.ok middle, reached) ∧
      (next middle).on reached = (.ok result, last) := by
  rcases hFirst : first.on state with ⟨_ | middle, reached⟩
  · rw [on_bind_error hFirst] at h
    cases h
  · rw [on_bind_ok hFirst] at h
    exact ⟨middle, reached, rfl, h⟩

/-- The computation returns, whatever the state. -/
def Returns (effect : Effect σ α) : Prop :=
  ∀ state, ∃ result reached, effect.on state = (.ok result, reached)

theorem Returns.pure (result : α) : Returns (pure result : Effect σ α) := fun state =>
  ⟨result, state, rfl⟩

theorem Returns.ofStep (step : σ → α × σ) : (ofStep step).Returns := fun state =>
  ⟨(step state).1, (step state).2, rfl⟩

theorem Returns.bind {first : Effect σ α} {next : α → Effect σ β} (hFirst : first.Returns)
    (hNext : ∀ result, (next result).Returns) : (first >>= next).Returns := by
  intro state
  obtain ⟨middle, reached, hMiddle⟩ := hFirst state
  rw [on_bind_ok hMiddle]
  exact hNext middle reached

theorem Returns.foldlM {items : List β} {step : α → β → Effect σ α}
    (hStep : ∀ item ∈ items, ∀ done, (step done item).Returns) (start : α) :
    (items.foldlM step start).Returns := by
  induction items generalizing start with
  | nil => exact .pure start
  | cons item rest ih =>
      rw [List.foldlM_cons]
      refine .bind (hStep item List.mem_cons_self start) ?_
      intro done
      exact ih (fun other hOther => hStep other (List.mem_cons_of_mem _ hOther)) done

/-- Whenever the computation returns from a state with `pre`, its result and the state that it
leaves satisfy `post`. -/
def Ensures (pre : σ → Prop) (effect : Effect σ α) (post : α → σ → Prop) : Prop :=
  ∀ state, pre state → ∀ result reached, effect.on state = (.ok result, reached) →
    post result reached

namespace Ensures

variable {pre : σ → Prop} {middle : α → σ → Prop} {post : β → σ → Prop}

theorem pure {result : β} (h : ∀ state, pre state → post result state) :
    Ensures pre (pure result) post := by
  intro state hPre _ _ hRan
  cases hRan
  exact h state hPre

theorem throw (fault : Fault) : Ensures pre (throw fault) post := fun _ _ _ _ hRan => nomatch hRan

theorem bind {first : Effect σ α} {next : α → Effect σ β} (hFirst : Ensures pre first middle)
    (hNext : ∀ result, Ensures (middle result) (next result) post) :
    Ensures pre (first >>= next) post := by
  intro state hPre result last hRan
  obtain ⟨between, reached, hRanFirst, hRanNext⟩ := on_bind_eq_ok hRan
  exact hNext between reached (hFirst state hPre between reached hRanFirst) result last hRanNext

theorem weaken {effect : Effect σ β} {stronger : σ → Prop} (h : Ensures pre effect post)
    (hPre : ∀ state, stronger state → pre state) : Ensures stronger effect post :=
  fun state hStronger => h state (hPre state hStronger)

/-- What every step keeps, all steps keep. -/
theorem foldlM {items : List β} {step : α → β → Effect σ α}
    (hStep : ∀ item ∈ items, ∀ done, Ensures (middle done) (step done item) middle) (start : α) :
    Ensures (middle start) (items.foldlM step start) middle := by
  induction items generalizing start with
  | nil => exact .pure fun _ hStart => hStart
  | cons item rest ih =>
      rw [List.foldlM_cons]
      exact .bind (hStep item List.mem_cons_self start) fun done =>
        ih (fun other hOther => hStep other (List.mem_cons_of_mem _ hOther)) done

end Ensures

/-- Both computations answer alike, and `view` goes on showing the state of the second one in that
of the first. -/
def Mirrors (view : ρ → σ) (wide : Effect ρ α) (plain : Effect σ α) : Prop :=
  ∀ state, plain.on (view state) = ((wide.on state).1, view (wide.on state).2)

namespace Mirrors

variable {view : ρ → σ}

theorem returns {wide : Effect ρ α} {plain : Effect σ α} (h : Mirrors view wide plain)
    (hPlain : plain.Returns) : wide.Returns := by
  intro state
  obtain ⟨result, reached, hResult⟩ := hPlain (view state)
  rw [h state] at hResult
  have hAnswer : (wide.on state).1 = .ok result := congrArg Prod.fst hResult
  exact ⟨result, (wide.on state).2, Prod.ext hAnswer rfl⟩

theorem pure (result : α) : Mirrors view (pure result) (pure result) := fun _ => rfl

theorem throw (fault : Fault) :
    Mirrors view (throw fault : Effect ρ α) (throw fault : Effect σ α) := fun _ => rfl

theorem bind {wide : Effect ρ α} {plain : Effect σ α} {wideNext : α → Effect ρ β}
    {plainNext : α → Effect σ β} (hFirst : Mirrors view wide plain)
    (hNext : ∀ result, Mirrors view (wideNext result) (plainNext result)) :
    Mirrors view (wide >>= wideNext) (plain >>= plainNext) := by
  intro state
  have hPlain := hFirst state
  rcases hWide : wide.on state with ⟨fault | middle, reached⟩
  · rw [hWide] at hPlain
    rw [on_bind_error hWide, on_bind_error hPlain]
  · rw [hWide] at hPlain
    rw [on_bind_ok hWide, on_bind_ok hPlain]
    exact hNext middle reached

theorem foldlM {items : List β} {wide : α → β → Effect ρ α} {plain : α → β → Effect σ α}
    (hStep : ∀ done item, Mirrors view (wide done item) (plain done item)) (start : α) :
    Mirrors view (items.foldlM wide start) (items.foldlM plain start) := by
  induction items generalizing start with
  | nil => exact pure start
  | cons item rest ih => exact bind (hStep start item) ih

end Mirrors

end Effect

/-- Another state at the same number of calls. -/
def Interleaving.map {ρ σ : Type} (view : ρ → σ) (turn : Interleaving ρ) : Interleaving σ :=
  ⟨view turn.state, turn.calls⟩

namespace Store

variable {σ ρ τ : Type}

/-- No call on the store fails to return. -/
structure Returns (store : Store σ τ) : Prop where
  start : store.start.Returns
  read : ∀ tx key, (store.read tx key).Returns
  write : ∀ tx key value, (store.write tx key value).Returns
  commit : ∀ tx, (store.commit tx).Returns
  doomed : ∀ tx, (store.doomed tx).Returns

/-- All calls on the first store answer as those on the second one, which `view` shows in it. -/
structure Mirrors (view : ρ → σ) (wide : Store ρ τ) (plain : Store σ τ) : Prop where
  start : Effect.Mirrors view wide.start plain.start
  read : ∀ tx key, Effect.Mirrors view (wide.read tx key) (plain.read tx key)
  write : ∀ tx key value, Effect.Mirrors view (wide.write tx key value) (plain.write tx key value)
  commit : ∀ tx, Effect.Mirrors view (wide.commit tx) (plain.commit tx)
  doomed : ∀ tx, Effect.Mirrors view (wide.doomed tx) (plain.doomed tx)

theorem Mirrors.returns {view : ρ → σ} {wide : Store ρ τ} {plain : Store σ τ}
    (h : Mirrors view wide plain) (hPlain : plain.Returns) : wide.Returns where
  start := h.start.returns hPlain.start
  read tx key := (h.read tx key).returns (hPlain.read tx key)
  write tx key value := (h.write tx key value).returns (hPlain.write tx key value)
  commit tx := (h.commit tx).returns (hPlain.commit tx)
  doomed tx := (h.doomed tx).returns (hPlain.doomed tx)

theorem on_noted {α : Type} (effect : Effect σ α) (describe : Option α → Call)
    (recording : Recording σ) :
    (noted effect describe).on recording =
      let called := effect.on recording.state
      (called.1, ⟨called.2, describe called.1.toOption :: recording.calls⟩) := rfl

/-- Writing calls down changes no answer. -/
theorem recorded_mirrors (store : Store σ τ) : Mirrors Recording.state store.recorded store where
  start _ := rfl
  read _ _ _ := rfl
  write _ _ _ _ := rfl
  commit _ _ := rfl
  doomed _ _ := rfl

section Interleaved

variable {α : Type}

theorem on_afterOthers (others : Nat → σ → σ) (effect : Effect σ α) (turn : Interleaving σ) :
    (afterOthers others effect).on turn =
      let called := effect.on (others (turn.calls + 1) turn.state)
      (called.1, ⟨called.2, turn.calls + 1⟩) := rfl

theorem on_uncounted (effect : Effect σ α) (turn : Interleaving σ) :
    (uncounted effect).on turn =
      let called := effect.on turn.state
      (called.1, ⟨called.2, turn.calls⟩) := rfl

theorem afterOthers_returns {effect : Effect σ α} (h : effect.Returns) (others : Nat → σ → σ) :
    (afterOthers others effect).Returns := by
  intro turn
  obtain ⟨result, reached, hResult⟩ := h (others (turn.calls + 1) turn.state)
  refine ⟨result, ⟨reached, turn.calls + 1⟩, ?_⟩
  rw [on_afterOthers, hResult]

theorem uncounted_returns {effect : Effect σ α} (h : effect.Returns) :
    (uncounted effect).Returns := by
  intro turn
  obtain ⟨result, reached, hResult⟩ := h turn.state
  refine ⟨result, ⟨reached, turn.calls⟩, ?_⟩
  rw [on_uncounted, hResult]

theorem Returns.interleaved {store : Store σ τ} (h : store.Returns) (others : Nat → σ → σ) :
    (store.interleaved others).Returns where
  start := afterOthers_returns h.start others
  read tx key := afterOthers_returns (h.read tx key) others
  write tx key value := afterOthers_returns (h.write tx key value) others
  commit tx := afterOthers_returns (h.commit tx) others
  doomed tx := uncounted_returns (h.doomed tx)

theorem afterOthers_mirrors {view : ρ → σ} {wide : Effect ρ α} {plain : Effect σ α}
    (h : Effect.Mirrors view wide plain) {wideOthers : Nat → ρ → ρ} {plainOthers : Nat → σ → σ}
    (hOthers : ∀ number state, view (wideOthers number state) = plainOthers number (view state)) :
    Effect.Mirrors (Interleaving.map view) (afterOthers wideOthers wide)
      (afterOthers plainOthers plain) := by
  intro turn
  rw [on_afterOthers, on_afterOthers, Interleaving.map, ← hOthers, h]
  rfl

theorem uncounted_mirrors {view : ρ → σ} {wide : Effect ρ α} {plain : Effect σ α}
    (h : Effect.Mirrors view wide plain) :
    Effect.Mirrors (Interleaving.map view) (uncounted wide) (uncounted plain) := by
  intro turn
  rw [on_uncounted, on_uncounted, Interleaving.map, h]
  rfl

/-- The others may be observed as well, as long as that does not change what they do. -/
theorem Mirrors.interleaved {view : ρ → σ} {wide : Store ρ τ} {plain : Store σ τ}
    (h : Mirrors view wide plain) {wideOthers : Nat → ρ → ρ} {plainOthers : Nat → σ → σ}
    (hOthers : ∀ number state, view (wideOthers number state) = plainOthers number (view state)) :
    Mirrors (Interleaving.map view) (wide.interleaved wideOthers)
      (plain.interleaved plainOthers) where
  start := afterOthers_mirrors h.start hOthers
  read tx key := afterOthers_mirrors (h.read tx key) hOthers
  write tx key value := afterOthers_mirrors (h.write tx key value) hOthers
  commit tx := afterOthers_mirrors (h.commit tx) hOthers
  doomed tx := uncounted_mirrors (h.doomed tx)

end Interleaved

end Store

theorem VersionedStore.calls_returns : VersionedStore.calls.Returns where
  start s := ⟨s.start, s, rfl⟩
  read tx key s := ⟨s.read tx key, s, rfl⟩
  write tx key value s := ⟨s.write tx key value, s, rfl⟩
  commit tx s := ⟨(s.commit tx).1, (s.commit tx).2, rfl⟩
  doomed tx s := ⟨tx.failed, s, rfl⟩

/-- A script without a broken key is followed to the end. -/
theorem Script.store_returns {script : Script} (h : script.brokenKey = none) :
    script.store.Returns := by
  have hTouch (key : Bytes) : (script.touch key).Returns := by
    rw [touch, h, if_neg (by simp)]
    exact .pure ()
  refine ⟨.pure (), ?_, ?_, ?_, ?_⟩
  · intro _ key
    exact (hTouch key).bind fun _ => .ofStep _
  · intro _ key _
    exact (hTouch key).bind fun _ => .ofStep _
  · intro _ at_
    exact ⟨_, _, rfl⟩
  · intro _ at_
    exact ⟨_, _, rfl⟩

end StoreBench
