import StoreBench.Latency
import StoreBench.Proofs.Random.Draw
import StoreBench.Proofs.Replay.Populated
import StoreBench.Proofs.Replay.Protocol

/-! What a baseline does to a store. The times apart, it is one transaction: a begin, a call on each
of the pairs drawn, and a commit. A store that was loaded with the same pairs and has no other user
accepts it, so reading leaves that store as it is, and writing leaves it with the values of the
pairs that were drawn last. -/
namespace StoreBench.Baseline

variable {σ τ : Type}

section Drawing

variable {samples : SampleSet}

theorem size_pos (hSome : samples.isEmpty = false) : 0 < samples.size := by
  rw [Array.isEmpty_eq_false_iff] at hSome
  exact Array.size_pos_iff.mpr hSome

/-- As many pairs as asked for are drawn, and from the sample data alone. -/
theorem targets_drawn (hSome : 0 < samples.size) (repeats : Nat) (stream : WordStream) :
    (targets samples repeats stream).length = repeats ∧
      ∀ pair ∈ targets samples repeats stream, pair ∈ samples := by
  obtain ⟨hLength, hBelow⟩ :=
    Draw.Within.collect (fun _ => Draw.position_within hSome) repeats stream
  constructor
  · rw [targets, List.length_filterMap_eq_countP, List.countP_eq_length.mpr, hLength]
    intro position hPosition
    simp [hBelow position hPosition]
  · intro pair hPair
    obtain ⟨position, _, hFound⟩ := List.mem_filterMap.mp hPair
    exact Array.mem_of_getElem? hFound

end Drawing

section Timing

/-- What is timed, without the times. -/
def transaction (store : Store σ τ) (operation : Operation) (pairs : List Pair) :
    Effect σ Status := do
  let handle ← store.start
  let handle ← pairs.foldlM (call store operation) handle
  store.commit handle

/-- What the stopwatch tells of so many steps, from the step number `first` on. -/
def times (windows : Nat → Window) (first count : Nat) : List Duration :=
  (List.range' first count).map fun step => (windows step).elapsed

variable (windows : Nat → Window) (store : Store σ τ) (operation : Operation)

theorem timeCalls_noted (step : Nat) (done : List Duration) (handle : τ) (state : σ)
    (pairs : List Pair) :
    Id.run (timeCalls (.noted windows) store operation step done handle state pairs) =
      let called := (pairs.foldlM (call store operation) handle).on state
      (called.1.map fun handle => (handle, done.reverse ++ times windows step pairs.length),
        called.2) := by
  induction pairs generalizing step done handle state with
  | nil => exact Prod.ext (congrArg (fun told => Except.ok (handle, told)) (by simp [times])) rfl
  | cons pair rest ih =>
      rw [List.foldlM_cons]
      rcases hCalled : (call store operation handle pair).on state with ⟨fault | next, reached⟩
      · rw [Effect.on_bind_error hCalled, timeCalls]
        simp only [Stopwatch.noted, hCalled]
        rfl
      · have hRest := ih (step + 1) ((windows step).elapsed :: done) next reached
        have hTimes : (windows step).elapsed :: times windows (step + 1) rest.length =
            times windows step (pair :: rest).length := rfl
        rw [List.reverse_cons, List.append_assoc, List.singleton_append, hTimes] at hRest
        rw [Effect.on_bind_ok hCalled, timeCalls, ← hRest]
        simp only [Stopwatch.noted, hCalled]
        rfl

variable {samples : SampleSet} {repeats : Nat} (stream : WordStream) (state : σ)

theorem measure_none (hNone : samples.isEmpty = true) :
    Id.run (measure (.noted windows) store samples operation repeats stream state) =
      (.error (.error .emptySampleSet), state) := by
  rw [measure, if_pos hNone]
  rfl

/-- No memory has room for so many times, which is noticed before the first call. -/
theorem measure_full (hSome : samples.isEmpty = false) (hFull : memoryMax < repeats * timeWidth) :
    Id.run (measure (.noted windows) store samples operation repeats stream state) =
      (.error (.fault .capacity), state) := by
  have hReserved : reserve repeats timeWidth = .error .capacity :=
    if_neg (Nat.not_le_of_lt hFull)
  rw [measure, if_neg (Bool.eq_false_iff.mp hSome), hReserved]
  rfl

/-- The times come from the stopwatch, and all else is the transaction. -/
theorem measure_made (hSome : samples.isEmpty = false)
    (hRoom : repeats * timeWidth ≤ memoryMax) :
    Id.run (measure (.noted windows) store samples operation repeats stream state) =
      let ended := (transaction store operation (targets samples repeats stream)).on state
      (Failure.ofFault (ended.1.map fun _ => times windows 0 repeats), ended.2) := by
  have hReserved : reserve repeats timeWidth = .ok () := if_pos hRoom
  have hLength := (targets_drawn (size_pos hSome) repeats stream).1
  rw [measure, if_neg (Bool.eq_false_iff.mp hSome), hReserved, transaction]
  rcases hStart : store.start.on state with ⟨fault | handle, begun⟩
  · rw [Effect.on_bind_error hStart]
    rfl
  have hCalls := timeCalls_noted windows store operation 0 [] handle begun
    (targets samples repeats stream)
  rw [hLength, List.reverse_nil, List.nil_append] at hCalls
  rw [Effect.on_bind_ok hStart]
  dsimp only
  rcases hCalled : ((targets samples repeats stream).foldlM (call store operation) handle).on begun
    with ⟨fault | last, reached⟩
  · rw [hCalled, Id.run] at hCalls
    rw [Effect.on_bind_error hCalled, hCalls]
    rfl
  · rw [hCalled, Id.run] at hCalls
    rw [Effect.on_bind_ok hCalled, hCalls]
    dsimp only [bind, Id.run, Except.map]
    rcases (store.commit last).on reached with ⟨fault | status, ended⟩
    · rfl
    · rfl

/-- A set with pairs is not refused as one without. -/
theorem measure_not_refused (hSome : samples.isEmpty = false) :
    (Id.run (measure (.noted windows) store samples operation repeats stream state)).1 ≠
      .error (.error .emptySampleSet) := by
  intro hRefused
  rcases Nat.lt_or_ge memoryMax (repeats * timeWidth) with hFull | hRoom
  · rw [measure_full windows store operation stream state hSome hFull] at hRefused
    cases hRefused
  · rw [measure_made windows store operation stream state hSome hRoom] at hRefused
    have hOwn (told : Except Fault (List Duration)) :
        Failure.ofFault told ≠ .error (.error ConfigError.emptySampleSet) := by
      cases told <;> nofun
    exact hOwn _ hRefused

end Timing

section Calling

open Call (Begins)

/-- A call of the kind on a pair, as it is written down. -/
def callOn (operation : Operation) (pair : Pair) (answer : Option Status) : Call :=
  match operation with
  | .get => .read pair.key answer
  | .put => .write pair.key pair.value answer

/-- The pair was called for, and the store answered. -/
def Answered (operation : Operation) (pair : Pair) (made : Call) : Prop :=
  ∃ status, made = callOn operation pair (some status)

/-- The calls of one transaction: a begin, then a call for each pair, in order and whatever the
answers to the earlier ones were, and then a commit with its answer. -/
def InOneTransaction (operation : Operation) (pairs : List Pair) (status : Status)
    (made : List Call) : Prop :=
  ∃ calls, List.Forall₂ (Answered operation) pairs calls ∧
    made = .start :: calls ++ [.commit (some status)]

theorem exists_answered (operation : Operation) (pairs : List Pair) :
    ∃ calls, List.Forall₂ (Answered operation) pairs calls := by
  induction pairs with
  | nil => exact ⟨[], .nil⟩
  | cons pair rest ih =>
      obtain ⟨calls, hCalls⟩ := ih
      exact ⟨_, .cons ⟨.ok, rfl⟩ hCalls⟩

variable (store : Store σ τ) (operation : Operation)

theorem call_traced (handle : τ) (pair : Pair) :
    (call store.recorded operation handle pair).Traced
      (fun _ made => ∃ answered, Answered operation pair answered ∧ made = [answered])
      fun made => ∃ answered, Answered operation pair answered ∧ made = [answered.unanswered] := by
  cases operation with
  | get =>
      refine .bind (.noted (store.read handle pair.key) _) ?_ ?_
      · rintro _ rfl
        exact ⟨_, ⟨.ok, rfl⟩, rfl⟩
      · rintro ⟨next, value, status⟩ _ rfl
        exact .pure ⟨_, ⟨status, rfl⟩, rfl⟩
  | put =>
      refine .bind (.noted (store.write handle pair.key pair.value) _) ?_ ?_
      · rintro _ rfl
        exact ⟨_, ⟨.ok, rfl⟩, rfl⟩
      · rintro ⟨next, status⟩ _ rfl
        exact .pure ⟨_, ⟨status, rfl⟩, rfl⟩

theorem calls_traced (pairs : List Pair) (handle : τ) :
    (pairs.foldlM (call store.recorded operation) handle).Traced
      (fun _ made => List.Forall₂ (Answered operation) pairs made)
      fun made => ∃ calls, List.Forall₂ (Answered operation) pairs calls ∧ Begins made calls := by
  induction pairs generalizing handle with
  | nil => exact .pure .nil
  | cons pair rest ih =>
      rw [List.foldlM_cons]
      refine .bind (call_traced store operation handle pair) ?_ ?_
      · rintro _ ⟨answered, hAnswered, rfl⟩
        obtain ⟨calls, hCalls⟩ := exists_answered operation rest
        exact ⟨answered :: calls, .cons hAnswered hCalls, .unanswered answered calls⟩
      · rintro next _ ⟨answered, hAnswered, rfl⟩
        refine (ih next).weaken ?_ ?_
        · intro _ made hMade
          exact .cons hAnswered hMade
        · rintro made ⟨calls, hCalls, hBegins⟩
          exact ⟨answered :: calls, .cons hAnswered hCalls, .answered answered hBegins⟩

theorem transaction_traced (pairs : List Pair) :
    (transaction store.recorded operation pairs).Traced
      (fun status made => InOneTransaction operation pairs status made)
      fun made => ∃ status calls, InOneTransaction operation pairs status calls ∧
        Begins made calls := by
  refine .bind (.noted store.start fun _ => .start) ?_ ?_
  · rintro _ rfl
    obtain ⟨calls, hCalls⟩ := exists_answered operation pairs
    exact ⟨.ok, _, ⟨calls, hCalls, rfl⟩, .answered .start (.nothing _)⟩
  rintro handle _ rfl
  refine .bind (calls_traced store operation pairs handle) ?_ ?_
  · rintro made ⟨calls, hCalls, hBegins⟩
    exact ⟨.ok, _, ⟨calls, hCalls, rfl⟩, .answered .start (hBegins.append _)⟩
  rintro last calls hCalls
  refine (Effect.Traced.noted (store.commit last) .commit).weaken ?_ ?_
  · rintro status _ rfl
    exact ⟨calls, hCalls, rfl⟩
  · rintro _ rfl
    refine ⟨.ok, _, ⟨calls, hCalls, rfl⟩, .answered .start (Begins.behind calls ?_)⟩
    exact .unanswered (.commit (some .ok)) []

theorem transaction_mirrored (pairs : List Pair) :
    Effect.Mirrors Recording.state (transaction store.recorded operation pairs)
      (transaction store operation pairs) := by
  have hMirrors := store.recorded_mirrors
  refine hMirrors.start.bind fun handle => ?_
  refine (Effect.Mirrors.foldlM (fun next pair => ?_) handle).bind hMirrors.commit
  cases operation with
  | get => exact (hMirrors.read next pair.key).bind fun _ => .pure _
  | put => exact (hMirrors.write next pair.key pair.value).bind fun _ => .pure _

theorem transaction_returns {store : Store σ τ} (h : store.Returns) (operation : Operation)
    (pairs : List Pair) : (transaction store operation pairs).Returns := by
  refine h.start.bind fun handle => ?_
  refine (Effect.Returns.foldlM (fun pair _ next => ?_) handle).bind h.commit
  cases operation with
  | get => exact (h.read next pair.key).bind fun _ => .pure _
  | put => exact (h.write next pair.key pair.value).bind fun _ => .pure _

end Calling

section Leaving

open VersionedStore (Uninterrupted loads)

/-- What the calls change, if they are accepted. -/
def changes (operation : Operation) (pairs : List Pair) : Changes :=
  match operation with
  | .get => []
  | .put => loads pairs

variable {s : VersionedStore} {samples : SampleSet}

theorem calls_uninterrupted (hCurrent : s.Current) (operation : Operation) (pairs : List Pair)
    {made : Changes} {handle : OpenTransaction} (h : s.Uninterrupted made handle) :
    ∃ last, (pairs.foldlM (call VersionedStore.calls operation) handle).on s = (.ok last, s) ∧
      s.Uninterrupted (made ++ changes operation pairs) last := by
  induction pairs generalizing made handle with
  | nil =>
      refine ⟨handle, rfl, ?_⟩
      cases operation <;> simpa [changes, loads] using h
  | cons pair rest ih =>
      rw [List.foldlM_cons]
      cases operation with
      | get =>
          obtain ⟨last, hRan, hLast⟩ := ih (h.read hCurrent pair.key).1
          exact ⟨last, hRan, hLast⟩
      | put =>
          obtain ⟨last, hRan, hLast⟩ := ih (h.write hCurrent pair.key pair.value).1
          refine ⟨last, hRan, ?_⟩
          rwa [List.append_assoc] at hLast

/-- The commit is accepted, as the store is as it was at the begin. -/
theorem transaction_accepted (hCurrent : s.Current) (operation : Operation) (pairs : List Pair) :
    ∃ handle, s.Uninterrupted (changes operation pairs) handle ∧
      (transaction VersionedStore.calls operation pairs).on s = (.ok .ok, (s.commit handle).2) := by
  obtain ⟨handle, hRan, hHandle⟩ := calls_uninterrupted hCurrent operation pairs (.start s)
  rw [List.nil_append] at hHandle
  have hStart : VersionedStore.calls.start.on s = (.ok s.start, s) := rfl
  have hCommit : (VersionedStore.calls.commit handle).on s = (.ok .ok, (s.commit handle).2) := by
    rw [← (hHandle.commit hCurrent).1]
    rfl
  refine ⟨handle, hHandle, ?_⟩
  rw [transaction, Effect.on_bind_ok hStart, Effect.on_bind_ok hRan, hCommit]

/-- Keys that the store holds anyway are put, so it holds no others afterwards. -/
theorem live_of_leaves {reached : VersionedStore} {pairs : List Pair} (hServes : s.Serves samples)
    (hPairs : ∀ pair ∈ pairs, pair ∈ samples) (h : s.Leaves (loads pairs) reached) :
    reached.live = s.live := by
  rw [reached.live_eq s.liveKeys, s.nodup_liveKeys.dedup, s.length_liveKeys]
  intro key
  rw [s.mem_liveKeys_iff, h.contents, VersionedStore.on_loads, Ne, Option.or_eq_none_iff,
    not_and_or, or_iff_right_of_imp]
  intro hPut
  obtain ⟨pair, hPair, rfl⟩ := List.mem_map.mp ((lastValue_ne_none_iff _ _).mp hPut)
  exact hServes.present pair (hPairs pair hPair)

end Leaving

section Measuring

open Call (Begins)

variable (windows : Nat → Window) {samples : SampleSet} (operation : Operation) {repeats : Nat}
  (stream : WordStream)

theorem width_fits_iff {repeats : Nat} : repeats * timeWidth ≤ memoryMax ↔ repeats < 2 ^ 59 := by
  rw [timeWidth, memoryMax]
  omega

/-- The calls on a store that need not return, written down behind none. -/
theorem measure_calls (hSome : samples.isEmpty = false) (hRoom : repeats < 2 ^ 59)
    (store : Store σ τ) (state : σ) :
    let ended := Id.run (measure (.noted windows) store.recorded samples operation repeats stream
      ⟨state, []⟩)
    ∃ status calls,
      InOneTransaction operation (targets samples repeats stream) status calls ∧
        Begins ended.2.calls.reverse calls ∧
        (∀ told, ended.1 = .ok told → ended.2.calls.reverse = calls ∧ told.length = repeats) ∧
        (store.Returns → ∃ told, ended.1 = .ok told) := by
  rw [measure_made windows store.recorded operation stream _ hSome (width_fits_iff.mpr hRoom)]
  obtain ⟨hLength, _⟩ := targets_drawn (size_pos hSome) repeats stream
  obtain ⟨made, hCalls, hMade⟩ :=
    transaction_traced store operation (targets samples repeats stream) ⟨state, []⟩
  rw [List.append_nil] at hCalls
  have hReturned (hReturns : store.Returns) :=
    transaction_returns (store.recorded_mirrors.returns hReturns) operation
      (targets samples repeats stream) ⟨state, []⟩
  rcases hRan : (transaction store.recorded operation (targets samples repeats stream)).on
    ⟨state, []⟩ with ⟨fault | status, reached⟩
  · rw [hRan] at hCalls hMade hReturned
    obtain ⟨status, calls, hTransaction, hBegins⟩ := hMade
    refine ⟨status, calls, hTransaction, ?_, ?_, fun hReturns => ?_⟩
    · rw [hCalls, List.reverse_reverse]
      exact hBegins
    · intro told hTold
      cases hTold
    · obtain ⟨_, _, hOk⟩ := hReturned hReturns
      cases hOk
  · rw [hRan] at hCalls hMade
    dsimp only at hCalls ⊢
    rw [hCalls, List.reverse_reverse]
    refine ⟨status, made, hMade, .refl made, ?_, fun _ => ⟨_, rfl⟩⟩
    intro told hTold
    cases hTold
    exact ⟨rfl, by simp [times]⟩

/-- A store that nobody else uses accepts the transaction. -/
theorem measure_served (hSome : samples.isEmpty = false) (hRoom : repeats < 2 ^ 59)
    {s : VersionedStore} (hCurrent : s.Current) :
    ∃ made handle,
      s.Uninterrupted (changes operation (targets samples repeats stream)) handle ∧
        InOneTransaction operation (targets samples repeats stream) .ok made ∧
        Id.run (measure (.noted windows) VersionedStore.calls.recorded samples operation repeats
          stream ⟨s, []⟩) =
            (.ok (times windows 0 repeats), ⟨(s.commit handle).2, made.reverse⟩) := by
  rw [measure_made windows _ operation stream _ hSome (width_fits_iff.mpr hRoom)]
  generalize targets samples repeats stream = drawn
  obtain ⟨handle, hHandle, hAccepted⟩ := transaction_accepted hCurrent operation drawn
  obtain ⟨made, hCalls, hMade⟩ :=
    transaction_traced VersionedStore.calls operation drawn ⟨s, []⟩
  have hSame := transaction_mirrored VersionedStore.calls operation drawn ⟨s, []⟩
  rcases hRan : (transaction VersionedStore.calls.recorded operation drawn).on ⟨s, []⟩ with
    ⟨ended, reached, calls⟩
  rw [hRan] at hCalls hMade hSame
  obtain ⟨rfl, rfl⟩ := Prod.mk.inj (hAccepted.symm.trans hSame)
  obtain rfl : calls = made.reverse := hCalls.trans (List.append_nil _)
  exact ⟨made, handle, hHandle, hMade, rfl⟩

end Measuring

/-- A baseline is refused exactly if there are no pairs to draw, and it faults if no list can hold
as many times as there are calls to make; neither of the two makes a call. Any other baseline draws
as many pairs as it was asked for, all of them from the sample data, and makes its calls inside one
transaction: a begin, one call of the kind that was chosen for each pair drawn, and a commit,
whatever the store answers. It tells one time for each of these calls. A call that does not return
ends it where it is. The stream may have any words pending, and the stopwatch may tell any times.

A store that was loaded with the sample data and has no other user answers the commit with OK.
Reading has left it as it was. Writing leaves as many keys, one version more if anything was written
at all, and every key with the value of the last pair drawn for it, or else with the one it had. -/
theorem measured_in_one_transaction (samples : SampleSet) (operation : Operation) (repeats : Nat)
    (stream : WordStream) (windows : Nat → Window) :
    let drawn := targets samples repeats stream
    (∀ (σ τ : Type) (store : Store σ τ) (state : σ),
      let ended := Id.run (measure (.noted windows) store.recorded samples operation repeats stream
        ⟨state, []⟩)
      (ended.1 = .error (.error .emptySampleSet) ↔ samples.isEmpty = true) ∧
      (samples.isEmpty = true → ended.2 = ⟨state, []⟩) ∧
      (samples.isEmpty = false → 2 ^ 59 ≤ repeats →
        ended = (.error (.fault .capacity), ⟨state, []⟩)) ∧
      (samples.isEmpty = false → repeats < 2 ^ 59 →
        drawn.length = repeats ∧ (∀ pair ∈ drawn, pair ∈ samples) ∧
        ∃ status calls, InOneTransaction operation drawn status calls ∧
          Call.Begins ended.2.calls.reverse calls ∧
          (∀ told, ended.1 = .ok told →
            ended.2.calls.reverse = calls ∧ told.length = repeats) ∧
          (store.Returns → ∃ told, ended.1 = .ok told))) ∧
    (samples.isEmpty = false → repeats < 2 ^ 59 →
      ∃ populated made told reached,
        VersionedStore.populate {} samples = (.ok, populated) ∧
        Id.run (measure (.noted windows) VersionedStore.calls.recorded samples operation repeats
          stream ⟨populated, []⟩) = (.ok told, ⟨reached, made.reverse⟩) ∧
        InOneTransaction operation drawn .ok made ∧
        match operation with
        | .get => reached = populated
        | .put => reached.live = populated.live ∧
            reached.version = populated.version + (if repeats = 0 then 0 else 1) ∧
            ∀ key, reached.contents key =
              (lastValue drawn key).or (populated.contents key)) := by
  intro drawn
  constructor
  · intro σ τ store state ended
    cases hEmpty : samples.isEmpty with
    | true =>
        have hEnded : ended = _ := measure_none windows store.recorded operation stream _ hEmpty
        rw [hEnded]
        simp
    | false =>
        obtain ⟨hLength, hDrawn⟩ := targets_drawn (size_pos hEmpty) repeats stream
        have hFull (h : 2 ^ 59 ≤ repeats) : ended = (.error (.fault .capacity), ⟨state, []⟩) :=
          measure_full windows store.recorded operation stream _ hEmpty
            (Nat.lt_of_not_le fun hFits => Nat.not_lt_of_le h (width_fits_iff.mp hFits))
        refine ⟨iff_of_false ?_ Bool.false_ne_true, nofun, fun _ => hFull, ?_⟩
        · exact measure_not_refused windows store.recorded operation stream _ hEmpty
        · intro _ hRoom
          exact ⟨hLength, hDrawn, measure_calls windows operation stream hEmpty hRoom store state⟩
  · intro hSome hRoom
    obtain ⟨hLength, hDrawn⟩ := targets_drawn (size_pos hSome) repeats stream
    obtain ⟨hOk, hServes, _⟩ := VersionedStore.populate_serves .empty samples
    obtain ⟨made, handle, hHandle, hMade, hEnded⟩ :=
      measure_served windows operation stream hSome hRoom hServes.current
    refine ⟨_, made, _, _, Prod.ext hOk rfl, hEnded, hMade, ?_⟩
    cases operation with
    | get => exact VersionedStore.commit_unchanged _ _ (.inr (hHandle.pending_isEmpty_iff.mpr rfl))
    | put =>
        obtain ⟨_, hLeaves⟩ := hHandle.commit hServes.current
        refine ⟨live_of_leaves hServes hDrawn hLeaves, ?_, fun key => ?_⟩
        · have hNone : changes .put drawn = [] ↔ repeats = 0 := by
            rw [changes, VersionedStore.loads, List.map_eq_nil_iff, ← List.length_eq_zero_iff,
              hLength]
          rw [hLeaves.version]
          exact congrArg _ (if_congr hNone rfl rfl)
        · rw [hLeaves.contents]
          exact VersionedStore.on_loads ..

/-- Two of the three pairs have one key. The words that are pending choose the last pair, and then
the first one, so the value of the first one stays. -/
theorem measured_in_one_transaction_overwritten :
    let samples : SampleSet := #[⟨[1], [10]⟩, ⟨[2], [20]⟩, ⟨[1], [30]⟩]
    let stream : WordStream :=
      { key := .replicate 8 0, counter := 0, pending := [0, 0xC0000000, 0, 0] }
    samples.isEmpty = false ∧ 2 < 2 ^ 59 ∧
      ∃ populated made told reached, VersionedStore.populate {} samples = (.ok, populated) ∧
        Id.run (measure (.noted fun _ => {}) VersionedStore.calls.recorded samples .put 2 stream
          ⟨populated, []⟩) = (.ok told, ⟨reached, made.reverse⟩) ∧
        InOneTransaction .put [⟨[1], [30]⟩, ⟨[1], [10]⟩] .ok made ∧
        reached.live = populated.live ∧ reached.version = populated.version + 1 ∧
        reached.contents [1] = some [10] ∧ reached.contents [2] = populated.contents [2] := by
  intro samples stream
  have hSome : samples.isEmpty = false := rfl
  have hRoom : 2 < 2 ^ 59 := by decide
  have hDrawn : targets samples 2 stream = [⟨[1], [30]⟩, ⟨[1], [10]⟩] := by decide +kernel
  obtain ⟨populated, made, told, reached, hPopulated, hEnded, hMade, hLive, hVersion, hHeld⟩ :=
    (measured_in_one_transaction samples .put 2 stream fun _ => {}).2 hSome hRoom
  rw [hDrawn] at hMade
  refine ⟨hSome, hRoom, populated, made, told, reached, hPopulated, hEnded, hMade, hLive, hVersion,
    ?_, ?_⟩
  · rw [hHeld, hDrawn]
    rfl
  · rw [hHeld, hDrawn]
    rfl

/-- As many times as no list can hold are not told, though there is a pair to draw. -/
theorem measure_beyond_memory :
    ¬ ∀ repeats ≤ wordMax, ∃ told reached,
      Id.run (measure (.noted fun _ => {}) (Script.store {}).recorded #[⟨[107], [118]⟩] .get repeats
        (WordStream.ofSeed 1) ⟨{}, []⟩) = (.ok told, reached) := by
  intro h
  obtain ⟨told, reached, hTold⟩ := h (2 ^ 59) (by decide)
  rw [measure_full _ _ _ _ _ rfl (by decide)] at hTold
  cases hTold

end StoreBench.Baseline
