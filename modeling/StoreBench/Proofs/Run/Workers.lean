import Mathlib.Data.List.Basic
import StoreBench.Proofs.Store.Effect
import StoreBench.Run.Executor

/-! What a run makes of its workers. Their threads are joined in the order of their numbers, and the
first one that was lost ends that. A thread behind it that was lost as well is not joined any more,
and the loss is then not an error value but a fault of the run itself. -/
namespace StoreBench

namespace Run

variable {σ τ : Type}

section Joining

variable {outcome : WorkerOutcome} {rest earlier later : List WorkerOutcome}

theorem joinFrom_cons_ok {result : WorkerResult} (h : outcome.result = .ok result) (worker : Nat) :
    joinFrom worker (outcome :: rest) =
      ((joinFrom (worker + 1) rest).1.map (result :: ·), (joinFrom (worker + 1) rest).2) := by
  simp only [joinFrom, h]

theorem joinFrom_cons_lost (h : outcome.isLost = true) (worker : Nat) :
    joinFrom worker (outcome :: rest) = (.error (.workerPanicked worker), rest) := by
  cases hResult : outcome.result with
  | ok result => simp [WorkerOutcome.isLost, hResult, Except.isOk, Except.toBool] at h
  | error fault => simp only [joinFrom, hResult]

theorem exists_result (h : outcome.isLost = false) : ∃ result, outcome.result = .ok result := by
  cases hResult : outcome.result with
  | ok result => exact ⟨result, rfl⟩
  | error fault => simp [WorkerOutcome.isLost, hResult, Except.isOk, Except.toBool] at h

/-- Without a loss all threads are joined. -/
theorem joinFrom_finished (h : earlier.any WorkerOutcome.isLost = false) (worker : Nat) :
    joinFrom worker earlier = (.ok (earlier.filterMap (·.result.toOption)), []) := by
  induction earlier generalizing worker with
  | nil => rfl
  | cons outcome rest ih =>
      rw [List.any_cons, Bool.or_eq_false_iff] at h
      obtain ⟨result, hResult⟩ := exists_result h.1
      rw [joinFrom_cons_ok hResult, ih h.2, List.filterMap_cons, hResult]
      rfl

/-- The first loss is named, and what comes after it is not joined. -/
theorem joinFrom_lost (hEarlier : earlier.any WorkerOutcome.isLost = false)
    (hLost : outcome.isLost = true) (worker : Nat) :
    joinFrom worker (earlier ++ outcome :: later) =
      (.error (.workerPanicked (worker + earlier.length)), later) := by
  induction earlier generalizing worker with
  | nil => exact joinFrom_cons_lost hLost worker
  | cons first rest ih =>
      rw [List.any_cons, Bool.or_eq_false_iff] at hEarlier
      obtain ⟨result, hResult⟩ := exists_result hEarlier.1
      rw [List.cons_append, joinFrom_cons_ok hResult, ih hEarlier.2, List.length_cons,
        Nat.add_right_comm, Nat.add_assoc]
      rfl

/-- The first thread that was lost, if there is one. -/
theorem finished_or_lost (outcomes : List WorkerOutcome) :
    outcomes.any WorkerOutcome.isLost = false ∨
      ∃ earlier outcome later, outcomes = earlier ++ outcome :: later ∧
        earlier.any WorkerOutcome.isLost = false ∧ outcome.isLost = true := by
  cases hFirst : outcomes.find? WorkerOutcome.isLost with
  | none => exact Or.inl (List.any_eq_false.mpr (List.find?_eq_none.mp hFirst))
  | some outcome =>
      obtain ⟨hLost, earlier, later, hParts, hEarlier⟩ :=
        List.find?_eq_some_iff_append.mp hFirst
      refine Or.inr ⟨earlier, outcome, later, hParts, ?_, hLost⟩
      simpa [List.any_eq_false] using hEarlier

/-- Numbering does not change who was lost. -/
theorem filter_zipIdx_eq_nil (outcomes : List WorkerOutcome) (worker : Nat) :
    ((outcomes.zipIdx worker).filter fun entry => entry.1.isLost) = [] ↔
      outcomes.any WorkerOutcome.isLost = false := by
  rw [List.filter_eq_nil_iff, List.any_eq_false]
  constructor
  · intro h outcome hMem
    obtain ⟨i, hFound⟩ := List.mem_iff_getElem?.mp hMem
    exact h (outcome, worker + i) (List.mk_add_mem_zipIdx_iff_getElem?.mpr hFound)
  · intro h entry hMem
    exact h entry.1 (List.fst_mem_of_mem_zipIdx hMem)

/-- The numbers of the workers that were lost. -/
def lost (outcomes : List WorkerOutcome) : List Nat :=
  (outcomes.zipIdx.filter fun entry => entry.1.isLost).map Prod.snd

/-- What a run comes to, by the numbers of its lost workers. -/
def blame (results : List WorkerResult) :
    List Nat → Except (Failure RunError) (List WorkerResult)
  | [] => .ok results
  | [worker] => .error (.error (.workerPanicked worker))
  | _ :: _ :: _ => .error (.fault .workersLost)

/-- Joining in order comes to what the numbers of the lost workers say: the results if there is
none, an error that names the only one, a fault if there are several. -/
theorem join_eq_blame (outcomes : List WorkerOutcome) :
    join outcomes = blame (outcomes.filterMap (·.result.toOption)) (lost outcomes) := by
  rcases finished_or_lost outcomes with hFinished | ⟨earlier, outcome, later, rfl, hEarlier, hLost⟩
  · rw [join, joinFrom_finished hFinished, lost, (filter_zipIdx_eq_nil outcomes 0).mpr hFinished]
    rfl
  · rw [join, joinFrom_lost hEarlier hLost, lost, List.zipIdx_append, List.filter_append,
      (filter_zipIdx_eq_nil earlier 0).mpr hEarlier, List.zipIdx_cons, List.filter_cons,
      if_pos hLost, List.nil_append, List.map_cons]
    -- Behind the first number of a lost worker there is another one if the scope fails.
    cases hLater : later.any WorkerOutcome.isLost with
    | false =>
        rw [(filter_zipIdx_eq_nil later _).mpr hLater]
        simp [hLater, Failure.ofError, Except.mapError, blame]
    | true =>
        have hMore : ((later.zipIdx (0 + earlier.length + 1)).filter fun entry =>
            entry.1.isLost) ≠ [] := by
          rw [Ne, filter_zipIdx_eq_nil, hLater]
          exact Bool.noConfusion
        obtain ⟨other, others, hOthers⟩ := List.exists_cons_of_ne_nil hMore
        rw [hOthers]
        exact if_pos hLater

end Joining

section Turns

variable (windows : Nat → Window) (host : Host) (config : RunConfig) (store : Store σ τ)
  (samples : SampleSet)

/-- The replays of all workers. Each goes on from the state that the one before it left, also if
that one was lost. -/
def replays (retries : Nat) : List (List Transaction) → σ → List (Except Fault Tally) × σ
  | [], state => ([], state)
  | transactions :: rest, state =>
    let (replayed, reached) := (store.replay samples transactions retries {}).on state
    let (others, last) := replays retries rest reached
    (replayed :: others, last)

/-- What the workers from number `first` on leave behind when they take their turns. -/
def turns (first : Nat) :
    List (List Transaction) → σ → List WorkerOutcome × σ
  | [], state => ([], state)
  | transactions :: rest, state =>
    let (outcome, reached) :=
      Id.run (work (.noted windows) host config store samples first transactions state)
    let (others, last) := turns (first + 1) rest reached
    (outcome :: others, last)

theorem workAll_noted (assignments : List (List Transaction)) (state : σ) :
    workAll (.noted windows) host config store samples assignments state =
      (turns windows host config store samples 0 assignments state :
        Id (List WorkerOutcome × σ)) := by
  -- Outcomes are gathered newest first, behind those of the workers with lower numbers.
  have general (turn : List WorkerOutcome × σ → List Transaction × Nat →
      Id (List WorkerOutcome × σ))
      (hTurn : ∀ done state transactions worker, turn (done, state) (transactions, worker) =
        let worked := Id.run
          (work (.noted windows) host config store samples worker transactions state)
        (worked.1 :: done, worked.2))
      (first : Nat) (done : List WorkerOutcome) (state : σ) :
      (assignments.zipIdx first).foldlM turn (done, state) =
        let turned := turns windows host config store samples first assignments state
        ((turned.1.reverse ++ done, turned.2) : Id (List WorkerOutcome × σ)) := by
    induction assignments generalizing first done state with
    | nil => rfl
    | cons transactions rest ih =>
        rw [List.zipIdx_cons, List.foldlM_cons, hTurn]
        refine (ih (first + 1) _ _).trans ?_
        simp [turns]
  rw [workAll, general _ fun done state transactions worker => rfl]
  dsimp only
  rw [List.append_nil]
  exact congrArg (·, _) (List.reverse_reverse _)

variable {config}

/-- A run that may start ends with the results of its workers, or with their loss. -/
theorem run_joined {partitioning : Partitioning} {assignments : List (List Transaction)}
    (hPrepared : prepare config samples partitioning = .ok assignments) (state : σ) :
    (run (.noted windows) host config store samples partitioning state : Id (RunOutcome σ)).result =
      (join (turns windows host config store samples 0 assignments state).1).bind
        fun results => Failure.ofFault (Summary.aggregate results) := by
  rw [run, hPrepared]
  dsimp only
  rw [workAll_noted windows host config store samples]
  refine congrArg (Except.bind _) ?_
  funext results
  cases Summary.aggregate results <;> rfl

/-- The result of a worker that was not pinned and got through its replay. -/
def finished (tally : Tally) (worker : Nat) : WorkerResult :=
  { worker, counters := tally.counters, window := windows worker }

/-- What a replay leaves of a worker that was not pinned. -/
def unpinned (replayed : Except Fault Tally) (worker : Nat) : WorkerOutcome where
  result := replayed.map fun tally => finished windows tally worker

theorem work_unpinned (hPin : config.layout.pin = false) (worker : Nat)
    (transactions : List Transaction) (state : σ) :
    work (.noted windows) host config store samples worker transactions state =
      let replayed := (store.replay samples transactions config.retries {}).on state
      ((unpinned windows replayed.1 worker, replayed.2) : Id (WorkerOutcome × σ)) := by
  have hPlace : config.layout.place host worker = .ok {} := by
    rw [CpuLayout.place, hPin]
    rfl
  rw [work, hPlace]
  rfl

/-- What these replays leave of the workers from number `first` on. -/
def outcomes (first : Nat) (replayed : List (Except Fault Tally)) : List WorkerOutcome :=
  (replayed.zipIdx first).map fun entry => unpinned windows entry.1 entry.2

theorem turns_unpinned (hPin : config.layout.pin = false) (first : Nat)
    (assignments : List (List Transaction)) (state : σ) :
    turns windows host config store samples first assignments state =
      let replayed := replays store samples config.retries assignments state
      (outcomes windows first replayed.1, replayed.2) := by
  induction assignments generalizing first state with
  | nil => rfl
  | cons transactions rest ih =>
      rw [turns, work_unpinned windows host store samples hPin]
      simp only [Id.run, ih, replays, outcomes, List.zipIdx_cons, List.map_cons]

/-- A run of workers that were not pinned ends with their results, or with their loss. -/
theorem run_unpinned (hPin : config.layout.pin = false) {partitioning : Partitioning}
    {assignments : List (List Transaction)}
    (hPrepared : prepare config samples partitioning = .ok assignments) (state : σ) :
    (run (.noted windows) host config store samples partitioning state : Id (RunOutcome σ)).result =
      (join (outcomes windows 0
        (replays store samples config.retries assignments state).1)).bind
        fun results => Failure.ofFault (Summary.aggregate results) := by
  rw [run_joined windows host store samples hPrepared, turns_unpinned windows host store samples
    hPin]

end Turns

section Loss

/-- The replay of this worker ended in a fault. -/
def Lost (replayed : List (Except Fault Tally)) (worker : Nat) : Prop :=
  ∃ fault, replayed[worker]? = some (.error fault)

variable {replayed : List (Except Fault Tally)} {worker : Nat}

theorem isLost_unpinned (windows : Nat → Window) (replayed : Except Fault Tally) (worker : Nat) :
    (unpinned windows replayed worker).isLost = !replayed.isOk := by
  cases replayed <;> rfl

theorem any_outcomes (windows : Nat → Window) (first : Nat) (replayed : List (Except Fault Tally)) :
    (outcomes windows first replayed).any WorkerOutcome.isLost =
      replayed.any fun result => !result.isOk := by
  rw [outcomes, List.any_map]
  nth_rewrite 2 [← List.zipIdx_map_fst first replayed]
  rw [List.any_map]
  congr 1
  funext entry
  exact isLost_unpinned windows entry.1 entry.2

/-- A worker behind the first lost one is lost exactly if that one is not the only one. -/
theorem any_lost_iff {earlier later : List (Except Fault Tally)} {fault : Fault}
    (hEarlier : (earlier.any fun result => !result.isOk) = false) :
    (later.any fun result => !result.isOk) = true ↔
      ∃ other, other ≠ earlier.length ∧ Lost (earlier ++ .error fault :: later) other := by
  rw [List.any_eq_true]
  constructor
  · rintro ⟨result, hMem, hLost⟩
    cases result with
    | ok tally => cases hLost
    | error fault =>
        obtain ⟨i, hFound⟩ := List.mem_iff_getElem?.mp hMem
        refine ⟨earlier.length + (i + 1), by omega, fault, ?_⟩
        rw [List.getElem?_append_right (Nat.le_add_right _ _), Nat.add_sub_cancel_left]
        exact hFound
  · rintro ⟨other, hOther, fault, hLost⟩
    rcases Nat.lt_or_ge other earlier.length with hBefore | hBehind
    · rw [List.getElem?_append_left hBefore] at hLost
      exact absurd rfl (List.any_eq_false.mp hEarlier _ (List.mem_of_getElem? hLost))
    · obtain ⟨i, rfl⟩ := Nat.exists_eq_add_of_lt (Nat.lt_of_le_of_ne hBehind hOther.symm)
      rw [Nat.add_assoc, List.getElem?_append_right (Nat.le_add_right _ _),
        Nat.add_sub_cancel_left] at hLost
      exact ⟨.error fault, List.mem_of_getElem? hLost, rfl⟩

/-- The first lost worker parts the others. -/
theorem Lost.split (hLost : Lost replayed worker)
    (hLowest : ∀ other < worker, ¬ Lost replayed other) :
    ∃ earlier fault later, replayed = earlier ++ .error fault :: later ∧
      earlier.length = worker ∧ (earlier.any fun result => !result.isOk) = false := by
  obtain ⟨fault, hFound⟩ := hLost
  obtain ⟨hLess, hHere⟩ := List.getElem?_eq_some_iff.mp hFound
  refine ⟨replayed.take worker, fault, replayed.drop (worker + 1), ?_, ?_, ?_⟩
  · rw [← hHere, ← List.drop_eq_getElem_cons, List.take_append_drop]
  · exact List.length_take_of_le (Nat.le_of_lt hLess)
  · rw [List.any_eq_false]
    intro result hMem
    obtain ⟨other, hOther⟩ := List.mem_iff_getElem?.mp hMem
    rw [List.getElem?_take] at hOther
    split at hOther
    · cases result with
      | ok tally => exact Bool.false_ne_true
      | error fault => exact absurd ⟨fault, hOther⟩ (hLowest other ‹_›)
    · cases hOther

/-- A scope whose lowest lost worker is `worker` names it, unless another one was lost too. -/
theorem join_lost (windows : Nat → Window) (hLost : Lost replayed worker)
    (hLowest : ∀ other < worker, ¬ Lost replayed other) :
    let joined := join (outcomes windows 0 replayed)
    (joined = .error (.error (.workerPanicked worker)) ∧
        ∀ other, Lost replayed other → other = worker) ∨
      (joined = .error (.fault .workersLost) ∧ ∃ other, other ≠ worker ∧ Lost replayed other) := by
  intro joined
  obtain ⟨earlier, fault, later, rfl, rfl, hEarlier⟩ := hLost.split hLowest
  have hJoined : joined = if (later.any fun result => !result.isOk) = true then
      .error (.fault .workersLost) else .error (.error (.workerPanicked earlier.length)) := by
    have hParted : outcomes windows 0 (earlier ++ .error fault :: later) =
        outcomes windows 0 earlier ++ unpinned windows (.error fault) (0 + earlier.length) ::
          outcomes windows (0 + earlier.length + 1) later := by
      rw [outcomes, List.zipIdx_append, List.zipIdx_cons, List.map_append, List.map_cons]
      rfl
    have hLength : (outcomes windows 0 earlier).length = earlier.length := by
      rw [outcomes, List.length_map, List.length_zipIdx]
    rw [← any_outcomes windows 0] at hEarlier
    rw [← any_outcomes windows (0 + earlier.length + 1)]
    change join _ = _
    rw [hParted, join, joinFrom_lost hEarlier rfl, hLength, Nat.zero_add]
    rfl
  by_cases hOther : (later.any fun result => !result.isOk) = true
  · exact Or.inr ⟨hJoined.trans (if_pos hOther), (any_lost_iff hEarlier).mp hOther⟩
  · refine Or.inl ⟨hJoined.trans (if_neg hOther), ?_⟩
    intro other hOtherLost
    by_contra hDistinct
    exact hOther ((any_lost_iff hEarlier).mpr ⟨other, hDistinct, hOtherLost⟩)

/-- A run in which workers are lost answers with an error that names the lowest one of them, if
that is the only one. If another one was lost too, the run gives no answer at all. -/
theorem lost_worker_named_iff (windows : Nat → Window) (host : Host) (config : RunConfig)
    (store : Store σ τ) (samples : SampleSet) (partitioning : Partitioning)
    (assignments : List (List Transaction)) (state : σ) (hPin : config.layout.pin = false)
    (hPrepared : prepare config samples partitioning = .ok assignments) (worker : Nat)
    (hLost : Lost (replays store samples config.retries assignments state).1 worker)
    (hLowest : ∀ other < worker,
      ¬ Lost (replays store samples config.retries assignments state).1 other) :
    let replayed := (replays store samples config.retries assignments state).1
    let outcome : RunOutcome σ := Id.run
      (run (.noted windows) host config store samples partitioning state)
    (outcome.result = .error (.error (.workerPanicked worker)) ↔
        ∀ other, Lost replayed other → other = worker) ∧
      ((∃ other, other ≠ worker ∧ Lost replayed other) →
        outcome.result = .error (.fault .workersLost)) := by
  intro replayed outcome
  have hResult : outcome.result = _ := run_unpinned windows host store samples hPin hPrepared state
  rcases join_lost windows hLost hLowest with ⟨hNamed, hOnly⟩ | ⟨hFault, other, hOther⟩
  · rw [hNamed] at hResult
    refine ⟨⟨fun _ => hOnly, fun _ => hResult⟩, ?_⟩
    rintro ⟨other, hDistinct, hOther⟩
    exact absurd (hOnly other hOther) hDistinct
  · rw [hFault] at hResult
    refine ⟨⟨?_, fun hOnly => absurd (hOnly other hOther.2) hOther.1⟩, fun _ => hResult⟩
    intro hNamed
    cases hNamed.symm.trans hResult

/-- One of three workers is lost. -/
theorem lost_worker_named_middle :
    let store := Script.store { brokenKey := some [1] }
    let samples : SampleSet := #[⟨[1], [10]⟩, ⟨[2], [20]⟩]
    let config : RunConfig := { threads := 3, layout := { pin := false } }
    let assignments : List (List Transaction) := [[[⟨.get, 1⟩]], [[⟨.get, 0⟩]], [[⟨.put, 1⟩]]]
    let outcome : RunOutcome ScriptPosition := Id.run
      (run (.noted fun _ => {}) {} config store samples (.preSplit assignments) {})
    prepare config samples (.preSplit assignments) = .ok assignments ∧
      outcome.result = .error (.error (.workerPanicked 1)) := by
  intro store samples config assignments outcome
  have hPrepared : prepare config samples (.preSplit assignments) = .ok assignments := rfl
  have hLost : Lost (replays store samples 0 assignments {}).1 1 := ⟨.storeCall, rfl⟩
  have hOthers : ∀ other, Lost (replays store samples 0 assignments {}).1 other → other = 1 := by
    rintro (_ | _ | _ | other) ⟨fault, hFault⟩
    · cases hFault
    · rfl
    · cases hFault
    · cases hFault
  have hLowest : ∀ other < 1, ¬ Lost (replays store samples 0 assignments {}).1 other :=
    fun other hLess hOther => Nat.ne_of_lt hLess (hOthers other hOther)
  exact ⟨hPrepared, (lost_worker_named_iff (fun _ => {}) {} config store samples
    (.preSplit assignments) assignments {} rfl hPrepared 1 hLost hLowest).1.mpr hOthers⟩

/-- Two workers are lost, and neither is named. -/
theorem lost_workers_unnamed :
    let store := Script.store { brokenKey := some [1] }
    let samples : SampleSet := #[⟨[1], [10]⟩]
    let config : RunConfig := { threads := 2, layout := { pin := false } }
    let workload : Workload := [[⟨.get, 0⟩], [⟨.get, 0⟩]]
    let assignments : List (List Transaction) := [[[⟨.get, 0⟩]], [[⟨.get, 0⟩]]]
    let replayed := (replays store samples config.retries assignments {}).1
    let outcome : RunOutcome ScriptPosition := Id.run
      (run (.noted fun _ => {}) {} config store samples (.shared workload) {})
    prepare config samples (.shared workload) = .ok assignments ∧
      ¬ ∀ worker, Lost replayed worker → (∀ other < worker, ¬ Lost replayed other) →
        outcome.result = .error (.error (.workerPanicked worker)) := by
  have hCut : prepare { threads := 2, layout := { pin := false } } #[⟨[1], [10]⟩]
      (.shared [[⟨.get, 0⟩], [⟨.get, 0⟩]]) = .ok [[[⟨.get, 0⟩]], [[⟨.get, 0⟩]]] := rfl
  intro store samples config workload assignments replayed outcome
  have hPrepared : prepare config samples (.shared workload) = .ok assignments := hCut
  refine ⟨hPrepared, fun hNamed => ?_⟩
  have hLost : Lost replayed 0 := ⟨.storeCall, rfl⟩
  have hOther : Lost replayed 1 := ⟨.storeCall, rfl⟩
  have hLowest : ∀ other < 0, ¬ Lost replayed other := fun other hLess =>
    absurd hLess (Nat.not_lt_zero other)
  have hResult : outcome.result = _ :=
    run_unpinned (fun _ => {}) {} store samples rfl hPrepared {}
  rcases join_lost (fun _ => {}) hLost hLowest with ⟨_, hOnly⟩ | ⟨hFault, _⟩
  · cases hOnly 1 hOther
  · rw [hFault] at hResult
    cases hResult.symm.trans (hNamed 0 hLost hLowest)

end Loss

end Run

end StoreBench
