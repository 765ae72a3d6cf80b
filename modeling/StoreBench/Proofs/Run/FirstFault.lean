import StoreBench.Proofs.Run.Balance
import StoreBench.Proofs.Run.Workers
import StoreBench.Store.Recorded
import StoreBench.Store.Scripted

/-! Where a run is refused for a command that refers to no pair. The check goes through the workers,
their transactions and the commands of these in order, and so it finds the command that comes first
when the transactions of all workers are put one after the other. For a shared workload that is its
own first fault, however many workers there are. -/
namespace StoreBench

section Search

/-- The first command that refers to no pair: the place of its transaction and the position that it
refers to. -/
inductive FirstFault (samples : Nat) : List Transaction → Nat → Nat → Prop where
  | found {before after : List Transaction} {earlier later : List Command} {cmd : Command}
      (hBefore : InRange samples before) (hEarlier : ∀ other ∈ earlier, other.index < samples)
      (hCmd : samples ≤ cmd.index) :
      FirstFault samples (before ++ (earlier ++ cmd :: later) :: after) before.length cmd.index

/-- A list is cut in one way only at its first item that does not pass. -/
theorem first_unique {α : Type} {passes : α → Prop} {before after front rest : List α}
    {item other : α} (h : before ++ item :: after = front ++ other :: rest)
    (hBefore : ∀ x ∈ before, passes x) (hItem : ¬ passes item)
    (hFront : ∀ x ∈ front, passes x) (hOther : ¬ passes other) :
    before = front ∧ item = other := by
  induction before generalizing front with
  | nil =>
      cases front with
      | nil => exact ⟨rfl, (List.cons.inj h).1⟩
      | cons first front =>
          cases h
          exact absurd (hFront item List.mem_cons_self) hItem
  | cons first before ih =>
      cases front with
      | nil =>
          cases h
          exact absurd (hBefore other List.mem_cons_self) hOther
      | cons _ front =>
          obtain ⟨rfl, hRest⟩ := List.cons.inj h
          obtain ⟨rfl, hSame⟩ := ih hRest (List.forall_mem_cons.mp hBefore).2
            (List.forall_mem_cons.mp hFront).2
          exact ⟨rfl, hSame⟩

variable {samples place index : Nat} {transactions : List Transaction}

theorem FirstFault.unique {place' index' : Nat} (h : FirstFault samples transactions place index)
    (h' : FirstFault samples transactions place' index') : place = place' ∧ index = index' := by
  obtain @⟨before, after, earlier, later, cmd, hBefore, hEarlier, hCmd⟩ := h
  generalize hCut : before ++ (earlier ++ cmd :: later) :: after = cut at h'
  obtain @⟨front, rest, sooner, others, first, hFront, hSooner, hFirst⟩ := h'
  have hFaulty {earlier later : List Command} {cmd : Command} (hCmd : samples ≤ cmd.index) :
      ¬ ∀ other ∈ earlier ++ cmd :: later, other.index < samples := by
    intro hAll
    exact absurd (hAll cmd (by simp)) (Nat.not_lt_of_le hCmd)
  obtain ⟨rfl, hTx⟩ := first_unique hCut hBefore (hFaulty hCmd) hFront (hFaulty hFirst)
  obtain ⟨_, rfl⟩ := first_unique hTx hEarlier (Nat.not_lt_of_le hCmd) hSooner
    (Nat.not_lt_of_le hFirst)
  exact ⟨rfl, rfl⟩

/-- A search by place stops at the first item that answers. -/
theorem findSome?_zipIdx_eq_some {α β : Type} {answer : α × Nat → Option β} {items : List α}
    {found : β} (h : items.zipIdx.findSome? answer = some found) :
    ∃ before item after, items = before ++ item :: after ∧
      answer (item, before.length) = some found ∧ ∀ entry ∈ before.zipIdx, answer entry = none := by
  obtain ⟨front, entry, rest, hCut, hFound, hNone⟩ := List.findSome?_eq_some_iff.mp h
  obtain ⟨before, others, rfl, rfl, hOthers⟩ := List.zipIdx_eq_append_iff.mp hCut
  obtain ⟨item, after, rfl, rfl, _⟩ := List.zipIdx_eq_cons_iff.mp hOthers.symm
  rw [Nat.zero_add] at hFound
  exact ⟨before, item, after, rfl, hFound, hNone⟩

/-- What is wrong with a worker's transactions is their first fault. -/
theorem of_workerFault_eq_some {worker : Nat} {error : ConfigError}
    (h : workerFault samples worker transactions = some error) :
    ∃ place index, error = .dataIndexOutOfRange worker place index samples ∧
      place < transactions.length ∧ FirstFault samples transactions place index := by
  obtain ⟨before, tx, after, rfl, hFound, hNone⟩ := findSome?_zipIdx_eq_some h
  obtain ⟨cmd, hCmd, rfl⟩ := Option.map_eq_some_iff.mp hFound
  obtain ⟨hBeyond, earlier, later, rfl, hEarlier⟩ := List.find?_eq_some_iff_append.mp hCmd
  have hBefore : InRange samples before :=
    workerFault_eq_none_iff.mp (List.findSome?_eq_none_iff.mpr hNone)
  refine ⟨before.length, cmd.index, rfl, by simp, .found hBefore ?_ ?_⟩
  · simpa using hEarlier
  · simpa using hBeyond

/-- Transactions in front of a fault move it, and those behind it do not matter. -/
theorem FirstFault.within {front : List Transaction}
    (h : FirstFault samples transactions place index) (hFront : InRange samples front)
    (rest : List Transaction) :
    FirstFault samples (front ++ transactions ++ rest) (front.length + place) index := by
  obtain @⟨before, after, earlier, later, cmd, hBefore, hEarlier, hCmd⟩ := h
  have hAll : InRange samples (front ++ before) := by
    intro tx hTx
    rcases List.mem_append.mp hTx with hTx | hTx
    · exact hFront tx hTx
    · exact hBefore tx hTx
  have hFound : FirstFault samples
      ((front ++ before) ++ (earlier ++ cmd :: later) :: (after ++ rest))
      (front ++ before).length cmd.index := .found hAll hEarlier hCmd
  simpa using hFound

/-- The check names the worker, and the place among its transactions, where the first fault of all
transactions lies. -/
theorem checkIndices_cases (samples : Nat) (assignments : List (List Transaction)) :
    checkIndices samples assignments = .ok () ∨
      ∃ worker transaction index transactions,
        checkIndices samples assignments =
          .error (.dataIndexOutOfRange worker transaction index samples) ∧
        assignments[worker]? = some transactions ∧ transaction < transactions.length ∧
        FirstFault samples assignments.flatten
          (upTo (assignments.map List.length) worker + transaction) index := by
  rw [checkIndices_eq]
  split
  case h_2 => exact Or.inl rfl
  case h_1 error hFault =>
    obtain ⟨front, transactions, rest, rfl, hFound, hNone⟩ := findSome?_zipIdx_eq_some hFault
    obtain ⟨place, index, rfl, hPlace, hFirst⟩ := of_workerFault_eq_some hFound
    have hFront : InRange samples front.flatten := by
      intro tx hTx
      obtain ⟨earlier, hEarlier, hTx⟩ := List.mem_flatten.mp hTx
      have hInRange := (forall_mem_zipIdx_iff fun _ => workerFault_eq_none_iff).mp hNone
      exact hInRange earlier hEarlier tx hTx
    have hWithin := hFirst.within hFront rest.flatten
    refine Or.inr ⟨front.length, place, index, transactions, rfl, by simp, hPlace, ?_⟩
    simpa [upTo, List.length_flatten] using hWithin

theorem exists_firstFault_iff :
    (∃ place index, FirstFault samples transactions place index) ↔
      ∃ tx ∈ transactions, ∃ cmd ∈ tx, samples ≤ cmd.index := by
  constructor
  · rintro ⟨_, _, @⟨before, after, earlier, later, cmd, _, _, hCmd⟩⟩
    exact ⟨earlier ++ cmd :: later, by simp, cmd, by simp, hCmd⟩
  · rintro ⟨tx, hTx, cmd, hCmd, hBeyond⟩
    cases hFault : workerFault samples 0 transactions with
    | none =>
        have hLess := workerFault_eq_none_iff.mp hFault tx hTx cmd hCmd
        omega
    | some error =>
        obtain ⟨place, index, _, _, hFirst⟩ := of_workerFault_eq_some hFault
        exact ⟨place, index, hFirst⟩

end Search

namespace Run

variable {σ τ : Type}

/-- The end of a run that is refused for the command of this worker. -/
def refusal (worker transaction index samples : Nat) : Except (Failure RunError) Summary :=
  .error (.error (.config (.dataIndexOutOfRange worker transaction index samples)))

section Located

variable (windows : Nat → Window) (host : Host) (store : Store σ τ) (samples : SampleSet)
  {config : RunConfig} {partitioning : Partitioning} {assignments : List (List Transaction)}

/-- A run that may start is not refused any more. -/
theorem result_ne_config (hPrepared : prepare config samples partitioning = .ok assignments)
    (state : σ) (error : ConfigError) :
    (run (.noted windows) host config store samples partitioning state :
      Id (RunOutcome σ)).result ≠ .error (.error (.config error)) := by
  rw [run_joined windows host store samples hPrepared, join_eq_blame]
  rcases lost _ with _ | ⟨worker, _ | ⟨other, others⟩⟩
  · rw [blame, Except.bind]
    cases Summary.aggregate _ with
    | error fault => simp [Failure.ofFault, Except.mapError]
    | ok summary => simp [Failure.ofFault, Except.mapError]
  · simp [blame, Except.bind]
  · simp [blame, Except.bind]

/-- Transactions that could be assigned are checked, and the run is refused at their first fault. -/
theorem refused_at_first_fault (hValid : config.validate = .ok ())
    (hAssigned : partitioning.assign config.threads = .ok assignments) (state : σ) :
    let outcome : RunOutcome σ := Id.run
      (run (.noted windows) host config store samples partitioning state)
    ((∃ worker transaction index bound,
        outcome.result = refusal worker transaction index bound) ↔
      ∃ tx ∈ assignments.flatten, ∃ cmd ∈ tx, samples.size ≤ cmd.index) ∧
    ∀ place index, FirstFault samples.size assignments.flatten place index →
      ∃ worker transaction transactions,
        assignments[worker]? = some transactions ∧ transaction < transactions.length ∧
        upTo (assignments.map List.length) worker + transaction = place ∧
        outcome = ⟨refusal worker transaction index samples.size, [], state⟩ := by
  intro outcome
  have hPrepared : prepare config samples partitioning =
      (Failure.ofError (checkIndices samples.size assignments)).map fun _ => assignments := by
    rw [prepare, hValid, hAssigned]
    rfl
  rw [← exists_firstFault_iff]
  rcases checkIndices_cases samples.size assignments with hPassed | ⟨worker, transaction, index,
    transactions, hRefused, hTransactions, hLess, hFirst⟩
  · have hNone : ¬ ∃ place index, FirstFault samples.size assignments.flatten place index := by
      rw [exists_firstFault_iff]
      rintro ⟨tx, hTx, cmd, hCmd, hBeyond⟩
      obtain ⟨transactions, hTransactions, hTx⟩ := List.mem_flatten.mp hTx
      have hInside := checkIndices_eq_ok_iff.mp hPassed transactions hTransactions tx hTx cmd hCmd
      omega
    rw [hPassed] at hPrepared
    refine ⟨iff_of_false ?_ hNone, fun place index h => absurd ⟨place, index, h⟩ hNone⟩
    rintro ⟨worker, transaction, index, bound, hResult⟩
    exact result_ne_config windows host store samples hPrepared state _ hResult
  · rw [hRefused] at hPrepared
    have hOutcome : outcome = ⟨refusal worker transaction index samples.size, [], state⟩ := by
      simp only [outcome, run, hPrepared]
      rfl
    refine ⟨iff_of_true ⟨worker, transaction, index, samples.size, by rw [hOutcome]⟩
      ⟨_, _, hFirst⟩, ?_⟩
    intro place other h
    obtain ⟨rfl, rfl⟩ := hFirst.unique h
    exact ⟨worker, transaction, transactions, hTransactions, hLess, rfl, hOutcome⟩

end Located

/-- Every worker of a run has a range of a workload that memory has room for. -/
theorem exists_shares {config : RunConfig} {workload : Workload} (hValid : config.validate = .ok ())
    (hEnough : config.threads ≤ workload.length)
    (hRoom : workload.length * Transaction.width ≤ memoryMax) :
    ∃ assignments, (Partitioning.shared workload).assign config.threads = .ok assignments ∧
      partition workload.length config.threads =
        .ok (Range.consecutive 0 (shareSizes workload.length config.threads)) := by
  have hSome : config.threads ≠ 0 := by
    intro hNone
    rw [RunConfig.validate, if_pos hNone] at hValid
    cases hValid
  have hRanges : partition workload.length config.threads =
      .ok (Range.consecutive 0 (shareSizes workload.length config.threads)) := by
    rw [partition_eq, if_neg hSome, if_neg (by omega), if_pos]
    rw [Range.width]
    rw [Transaction.width] at hRoom
    omega
  refine ⟨(Range.consecutive 0 (shareSizes workload.length config.threads)).map
    (·.slice workload.toArray), ?_, hRanges⟩
  rw [Partitioning.assign, hRanges]
  rfl

/-- A shared workload is refused at its first fault, for whose place the bounds of the ranges
account. -/
theorem refused_shared (windows : Nat → Window) (host : Host) (store : Store σ τ)
    (samples : SampleSet) {config : RunConfig} {workload : Workload}
    (hValid : config.validate = .ok ()) (hEnough : config.threads ≤ workload.length)
    (hRoom : workload.length * Transaction.width ≤ memoryMax) (state : σ) :
    let outcome : RunOutcome σ := Id.run
      (run (.noted windows) host config store samples (.shared workload) state)
    ((∃ worker transaction index bound,
        outcome.result = refusal worker transaction index bound) ↔
      ∃ tx ∈ workload, ∃ cmd ∈ tx, samples.size ≤ cmd.index) ∧
    ∀ place index, FirstFault samples.size workload place index →
      ∃ (ranges : List Range) (worker transaction : Nat) (range : Range),
        partition workload.length config.threads = .ok ranges ∧
        ranges[worker]? = some range ∧ range.start + transaction = place ∧ place < range.stop ∧
        outcome = ⟨refusal worker transaction index samples.size, [], state⟩ := by
  obtain ⟨assignments, hAssigned, hRanges⟩ := exists_shares hValid hEnough hRoom
  have hRefused := refused_at_first_fault windows host store samples hValid hAssigned state
  rw [(Partitioning.assign_shared hAssigned).1] at hRefused
  refine ⟨hRefused.1, fun place index hFirst => ?_⟩
  obtain ⟨worker, transaction, transactions, hWorker, hLess, rfl, hOutcome⟩ :=
    hRefused.2 place index hFirst
  have hSizes := Partitioning.lengths_assign_shared hAssigned
  have hSize : (shareSizes workload.length config.threads)[worker]? = some transactions.length := by
    rw [← hSizes, List.getElem?_map, hWorker]
    rfl
  obtain ⟨hPlace, hSize⟩ := List.getElem?_eq_some_iff.mp hSize
  refine ⟨_, worker, transaction, _, hRanges, Range.getElem?_consecutive 0 hPlace, ?_, ?_, hOutcome⟩
  · rw [hSizes, Nat.zero_add]
  · simpa only [hSizes, Nat.zero_add, upTo_succ hPlace, hSize, Nat.add_lt_add_iff_left] using hLess

/-- A run is refused for an index exactly if one of the transactions that it is to replay has a
command that refers to no pair. No store call was made then. The worker and the place that it names
lead to the first transaction with such a command, and the index is that of the first such command
in it. The place in a shared workload is the same for every number of workers; its transactions
stand in one array, so they take no more than memory can have. Of a pool, only the entries that have
a worker count. -/
theorem first_fault_located (windows : Nat → Window) (host : Host) (store : Store σ τ)
    (samples : SampleSet) (state : σ) :
    let outcome (config : RunConfig) (partitioning : Partitioning) : RunOutcome (Recording σ) :=
      Id.run (run (.noted windows) host config store.recorded samples partitioning ⟨state, []⟩)
    (∀ workload : Workload, workload.length * Transaction.width ≤ memoryMax →
      (∀ config : RunConfig, config.validate = .ok () → config.threads ≤ workload.length →
        ((∃ worker transaction index bound,
            (outcome config (.shared workload)).result = refusal worker transaction index bound) ↔
          ∃ tx ∈ workload, ∃ cmd ∈ tx, samples.size ≤ cmd.index)) ∧
      ((∃ tx ∈ workload, ∃ cmd ∈ tx, samples.size ≤ cmd.index) →
        ∃ place index, FirstFault samples.size workload place index ∧
          ∀ config : RunConfig, config.validate = .ok () → config.threads ≤ workload.length →
            ∃ (ranges : List Range) (worker transaction : Nat) (range : Range),
              partition workload.length config.threads = .ok ranges ∧
              ranges[worker]? = some range ∧ range.start + transaction = place ∧
              place < range.stop ∧
              outcome config (.shared workload) =
                ⟨refusal worker transaction index samples.size, [], ⟨state, []⟩⟩)) ∧
    ∀ (pool : Pool) (config : RunConfig), config.validate = .ok () →
      config.threads ≤ pool.length →
      let entries := pool.take config.threads
      ((∃ worker transaction index bound,
          (outcome config (.preSplit pool)).result = refusal worker transaction index bound) ↔
        ∃ tx ∈ entries.flatten, ∃ cmd ∈ tx, samples.size ≤ cmd.index) ∧
      ((∃ tx ∈ entries.flatten, ∃ cmd ∈ tx, samples.size ≤ cmd.index) →
        ∃ (worker transaction index : Nat) (entry : Workload),
          worker < config.threads ∧ pool[worker]? = some entry ∧ transaction < entry.length ∧
          FirstFault samples.size entries.flatten
            (upTo (entries.map List.length) worker + transaction) index ∧
          outcome config (.preSplit pool) =
            ⟨refusal worker transaction index samples.size, [], ⟨state, []⟩⟩) := by
  intro outcome
  constructor
  · intro workload hRoom
    refine ⟨fun config hValid hEnough =>
      (refused_shared windows host store.recorded samples hValid hEnough hRoom ⟨state, []⟩).1, ?_⟩
    intro hFaulty
    obtain ⟨place, index, hFirst⟩ := exists_firstFault_iff.mpr hFaulty
    refine ⟨place, index, hFirst, fun config hValid hEnough => ?_⟩
    exact (refused_shared windows host store.recorded samples hValid hEnough hRoom ⟨state, []⟩).2
      place index hFirst
  · intro pool config hValid hEnough entries
    have hAssigned : (Partitioning.preSplit pool).assign config.threads = .ok entries := by
      rw [Partitioning.assign, if_neg (by omega)]
    obtain ⟨hRefused, hLocated⟩ := refused_at_first_fault windows host store.recorded samples
      hValid hAssigned ⟨state, []⟩
    refine ⟨hRefused, fun hFaulty => ?_⟩
    obtain ⟨place, index, hFirst⟩ := exists_firstFault_iff.mpr hFaulty
    obtain ⟨worker, transaction, entry, hEntry, hLess, rfl, hOutcome⟩ :=
      hLocated place index hFirst
    rw [List.getElem?_take] at hEntry
    split at hEntry
    · exact ⟨worker, transaction, index, entry, ‹_›, hEntry, hLess, hFirst, hOutcome⟩
    · cases hEntry

/-- The transaction with the place 2 refers to no pair. It is the third of one worker's transactions
and the first of the second worker's, and of a pool it is left out if its entry has no worker. -/
theorem first_fault_located_past_the_samples :
    let samples : SampleSet := #[⟨[1], [10]⟩]
    let workload : Workload := [[⟨.get, 0⟩], [], [⟨.put, 0⟩, ⟨.get, 5⟩, ⟨.get, 1⟩], [⟨.get, 7⟩]]
    let pool : Pool := [[[⟨.get, 0⟩], []], workload]
    let config (threads : Nat) : RunConfig := { threads, layout := { pin := false } }
    let outcome (threads : Nat) (partitioning : Partitioning) :
        RunOutcome (Recording ScriptPosition) := Id.run
      (run (.noted fun _ => {}) {} (config threads) (Script.store {}).recorded samples partitioning
        ⟨{}, []⟩)
    outcome 1 (.shared workload) = ⟨refusal 0 2 5 1, [], ⟨{}, []⟩⟩ ∧
      outcome 2 (.shared workload) = ⟨refusal 1 0 5 1, [], ⟨{}, []⟩⟩ ∧
      outcome 2 (.preSplit pool) = ⟨refusal 1 2 5 1, [], ⟨{}, []⟩⟩ ∧
      ∀ worker transaction index bound,
        (outcome 1 (.preSplit pool)).result ≠ refusal worker transaction index bound := by
  intro samples workload pool config outcome
  obtain ⟨hShared, hPool⟩ :=
    first_fault_located (fun _ => {}) {} (Script.store {}) samples {}
  have hFront : InRange 1 [[⟨.get, 0⟩], []] := by simp [InRange]
  have hCut : FirstFault 1 ([[⟨.get, 0⟩], []] ++ ([⟨.put, 0⟩] ++ ⟨.get, 5⟩ :: [⟨.get, 1⟩]) ::
      [[⟨.get, 7⟩]]) 2 5 := .found hFront (by simp) (by decide)
  have hFault : FirstFault 1 workload 2 5 := hCut
  obtain ⟨place, index, hFirst, hAt⟩ := (hShared workload (by decide)).2 (by decide)
  obtain ⟨rfl, rfl⟩ := hFirst.unique hFault
  refine ⟨?_, ?_, ?_, ?_⟩
  · obtain ⟨ranges, worker, transaction, range, hRanges, hRange, hStart, _, hOutcome⟩ :=
      hAt (config 1) rfl (by decide)
    cases (show partition 4 1 = .ok [⟨0, 4⟩] from rfl).symm.trans hRanges
    rcases worker with _ | worker
    · cases hRange
      obtain rfl : transaction = 2 := by simpa using hStart
      exact hOutcome
    · cases hRange
  · obtain ⟨ranges, worker, transaction, range, hRanges, hRange, hStart, hStop, hOutcome⟩ :=
      hAt (config 2) rfl (by decide)
    cases (show partition 4 2 = .ok [⟨0, 2⟩, ⟨2, 4⟩] from rfl).symm.trans hRanges
    rcases worker with _ | _ | worker
    · cases hRange
      exact absurd hStop (by decide)
    · cases hRange
      obtain rfl : transaction = 0 := by simpa using hStart
      exact hOutcome
    · cases hRange
  · obtain ⟨worker, transaction, index, entry, hLess, hEntry, hPlace, hFirst, hOutcome⟩ :=
      (hPool pool (config 2) rfl (by decide)).2 (by decide)
    obtain ⟨hSame, rfl⟩ := hFirst.unique (hFault.within hFront [])
    rcases worker with _ | _ | worker
    · cases hEntry
      have hEarly : 0 + transaction = 4 := hSame
      have hShort : transaction < 2 := hPlace
      omega
    · have hLate : 2 + transaction = 4 := hSame
      obtain rfl : transaction = 2 := by omega
      exact hOutcome
    · exact absurd hLess (by simp [config])
  · intro worker transaction index bound hRefused
    have hFaulty := (hPool pool (config 1) rfl (by decide)).1.mp ⟨_, _, _, _, hRefused⟩
    exact absurd hFaulty (by decide)

end Run

end StoreBench
