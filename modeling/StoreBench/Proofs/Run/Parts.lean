import StoreBench.Proofs.Run.Coverage

/-! A workload that is replayed in parts. A transaction's budget of repetitions is its own and a
tally does not know about places, so parts that are replayed one after the other make the calls of
one replay of the whole, and what they count adds up to what that counts. -/
namespace StoreBench

namespace Store

variable {σ τ : Type} {store : Store σ τ} {samples : SampleSet} {retries : Nat}

/-- Two replays, the second of which goes on with the tallies of the first, end as one. -/
theorem replay_append (hReturns : store.Returns) {first second : List Transaction}
    (hInRange : ∀ tx ∈ first ++ second, ∀ cmd ∈ tx, cmd.index < samples.size) (initial : Tally)
    (state : σ) (hOverflow :
      ((store.replay samples (first ++ second) retries initial).on state).1 ≠ .error .overflow) :
    ∃ (whole split : Tally) (final : σ),
      (store.replay samples (first ++ second) retries initial).on state = (.ok whole, final) ∧
      (store.replay samples first retries initial >>= store.replay samples second retries).on
        state = (.ok split, final) ∧
      split.counters = whole.counters := by
  obtain ⟨hFirst, hSecond⟩ := List.forall_mem_append.mp hInRange
  obtain ⟨course, middle, hCourse⟩ := exists_replayed hReturns hFirst retries state
  obtain ⟨more, final, hMore⟩ := exists_replayed hReturns hSecond retries middle
  have hWhole := (hCourse.append hMore).gained initial
  rw [Course.made_append] at hWhole
  have hSplit : initial.Gained (course.made + more.made) final
      ((store.replay samples first retries initial >>=
        store.replay samples second retries).on state) :=
    .bind (hCourse.gained initial) fun reached _ _ => hMore.gained reached
  have hFits := hWhole.fits_of_ne_overflow hOverflow
  obtain ⟨whole, hWholeEnded, hWholeCounters⟩ := hWhole.of_fits hFits
  obtain ⟨split, hSplitEnded, hSplitCounters⟩ := hSplit.of_fits hFits
  exact ⟨whole, split, final, hWholeEnded, hSplitEnded, hSplitCounters.trans hWholeCounters.symm⟩

end Store

namespace Run

variable {σ τ : Type} {store : Store σ τ} {samples : SampleSet} {retries : Nat}

/-- Workers that take their turns leave the store as one replay of all their transactions, and
share its tallies. -/
theorem exists_replays (hReturns : store.Returns) {workload : Workload}
    (hInRange : ∀ tx ∈ workload, ∀ cmd ∈ tx, cmd.index < samples.size)
    {parts : List (List Transaction)} (hParts : parts.flatten = workload) (retries : Nat)
    (state : σ) :
    ∃ (course : Course σ) (final : σ),
      store.Replayed samples retries workload state course final ∧
      (course.made.fits = true → ∃ tallies : List Tally,
        replays store samples retries parts state = (tallies.map Except.ok, final) ∧
        (tallies.map Tally.counters).sum = course.made) := by
  subst hParts
  induction parts generalizing state with
  | nil => exact ⟨[], state, .nil state, fun _ => ⟨[], rfl, rfl⟩⟩
  | cons part rest ih =>
      obtain ⟨hPart, hRest⟩ := List.forall_mem_append.mp hInRange
      obtain ⟨course, middle, hCourse⟩ := Store.exists_replayed hReturns hPart retries state
      obtain ⟨more, final, hMore, hShares⟩ := ih middle hRest
      refine ⟨course ++ more, final, hCourse.append hMore, fun hFits => ?_⟩
      rw [Course.made_append] at hFits
      obtain ⟨tally, hEnded, hTally⟩ := hCourse.counted (Counters.fits_left hFits)
      have hOthers : (more.made + course.made).fits = true := by rwa [add_comm]
      obtain ⟨tallies, hTallies, hSum⟩ := hShares (Counters.fits_left hOthers)
      refine ⟨tally :: tallies, ?_, ?_⟩
      · rw [replays, hEnded]
        dsimp only
        rw [hTallies, List.map_cons]
      · rw [List.map_cons, List.sum_cons, hSum, hTally, Course.made_append]

/-- The shares of a workload, one for each worker. -/
theorem replay_shares (hReturns : store.Returns) {workload : Workload} {threads : Nat}
    {ranges : List Range} (hRanges : partition workload.length threads = .ok ranges)
    (hInRange : ∀ tx ∈ workload, ∀ cmd ∈ tx, cmd.index < samples.size) (windows : Nat → Window)
    (state : σ)
    (hOverflow : ((store.replay samples workload retries {}).on state).1 ≠ .error .overflow) :
    ∃ (whole : Tally) (tallies : List Tally) (final : σ) (summary : Summary),
      (store.replay samples workload retries {}).on state = (.ok whole, final) ∧
      replays store samples retries (ranges.map (·.slice workload.toArray)) state =
        (tallies.map Except.ok, final) ∧
      Summary.aggregate (results windows tallies) = .ok summary ∧
      summary.totals = whole.counters := by
  have hParts : (ranges.map (·.slice workload.toArray)).flatten = workload := by
    have hAssigned : (Partitioning.shared workload).assign threads =
        .ok (ranges.map (·.slice workload.toArray)) := by
      rw [Partitioning.assign, hRanges]
      rfl
    exact (Partitioning.assign_shared hAssigned).1
  obtain ⟨course, final, hCourse, hShares⟩ :=
    exists_replays hReturns hInRange hParts retries state
  have hFits := hCourse.fits_of_ne_overflow hOverflow
  obtain ⟨whole, hEnded, hMade⟩ := hCourse.counted hFits
  obtain ⟨tallies, hTallies, hSum⟩ := hShares hFits
  have hTotals : ((results windows tallies).map WorkerResult.counters).sum = course.made := by
    rw [results_counters, hSum]
  refine ⟨whole, tallies, final, _, hEnded, hTallies,
    Summary.aggregate_of_fits (results_pairwise windows tallies) (by rwa [hTotals]), ?_⟩
  rw [hTotals, hMade]

/-- Parts of a workload may be replayed one after the other instead of all at once. A second replay
that goes on with the tallies of the first one leaves the same tallies, the same state of the store
and the same calls made on it as one replay of both lists. So do workers that take their turns, each
with its range of the workload and with tallies of its own, once their results are summed up. -/
theorem replay_in_parts (store : Store σ τ) (hReturns : store.Returns) (samples : SampleSet)
    (retries : Nat) (state : σ) :
    (∀ (first second : List Transaction) (initial : Tally),
      (∀ tx ∈ first ++ second, ∀ cmd ∈ tx, cmd.index < samples.size) →
      ((store.recorded.replay samples (first ++ second) retries initial).on ⟨state, []⟩).1 ≠
        .error .overflow →
      ∃ (whole split : Tally) (final : Recording σ),
        (store.recorded.replay samples (first ++ second) retries initial).on ⟨state, []⟩ =
          (.ok whole, final) ∧
        (store.recorded.replay samples first retries initial >>=
          store.recorded.replay samples second retries).on ⟨state, []⟩ = (.ok split, final) ∧
        split.counters = whole.counters) ∧
    (∀ (workload : Workload) (threads : Nat) (ranges : List Range) (windows : Nat → Window),
      partition workload.length threads = .ok ranges →
      (∀ tx ∈ workload, ∀ cmd ∈ tx, cmd.index < samples.size) →
      ((store.recorded.replay samples workload retries {}).on ⟨state, []⟩).1 ≠
        .error .overflow →
      ∃ (whole : Tally) (tallies : List Tally) (final : Recording σ) (summary : Summary),
        (store.recorded.replay samples workload retries {}).on ⟨state, []⟩ = (.ok whole, final) ∧
        replays store.recorded samples retries (ranges.map (·.slice workload.toArray))
          ⟨state, []⟩ = (tallies.map Except.ok, final) ∧
        Summary.aggregate (results windows tallies) = .ok summary ∧
        summary.totals = whole.counters) := by
  have hRecorded := store.recorded_mirrors.returns hReturns
  constructor
  · intro first second initial hInRange hOverflow
    exact Store.replay_append hRecorded hInRange initial ⟨state, []⟩ hOverflow
  · intro workload threads ranges windows hRanges hInRange hOverflow
    exact replay_shares hRecorded hRanges hInRange windows ⟨state, []⟩ hOverflow

/-- The second transaction is canceled, whether one worker replays all three or two share them. -/
theorem replay_in_parts_two_workers :
    let store := Script.store { commits := [.rwConflict, .ok, .wwConflict] }
    let samples : SampleSet := #[⟨[1], [10]⟩]
    let first : List Transaction := [[⟨.get, 0⟩]]
    let second : List Transaction := [[⟨.put, 0⟩], [⟨.get, 0⟩, ⟨.put, 0⟩]]
    let ranges : List Range := [⟨0, 2⟩, ⟨2, 3⟩]
    let made : Counters :=
      { assigned := 3, attempts := 5, committed := 2, failures := 3, rwConflicts := 2,
        wwConflicts := 1, canceledTxs := 1 }
    store.Returns ∧ partition (first ++ second).length 2 = .ok ranges ∧
      (∀ tx ∈ first ++ second, ∀ cmd ∈ tx, cmd.index < samples.size) ∧
      ((store.recorded.replay samples (first ++ second) 1 {}).on ⟨{}, []⟩).1 ≠ .error .overflow ∧
      (∃ (split : Tally) (final : Recording ScriptPosition),
        (store.recorded.replay samples first 1 {} >>= store.recorded.replay samples second 1).on
          ⟨{}, []⟩ = (.ok split, final) ∧
        split.counters = made ∧ final.calls.length = 21) ∧
      ∃ (tallies : List Tally) (final : Recording ScriptPosition) (summary : Summary),
        replays store.recorded samples 1 (ranges.map (·.slice (first ++ second).toArray))
          ⟨{}, []⟩ = (tallies.map Except.ok, final) ∧
        Summary.aggregate (results (fun _ => {}) tallies) = .ok summary ∧ summary.totals = made := by
  intro store samples first second ranges made
  have hReturns : store.Returns := Script.store_returns rfl
  have hRanges : partition (first ++ second).length 2 = .ok ranges := by decide
  have hInRange : ∀ tx ∈ first ++ second, ∀ cmd ∈ tx, cmd.index < samples.size := by decide
  have hRan : ((store.recorded.replay samples (first ++ second) 1 {}).on ⟨{}, []⟩).1.map
      Tally.counters = .ok made := by decide +kernel
  have hCalls : ((store.recorded.replay samples (first ++ second) 1 {}).on
      ⟨{}, []⟩).2.calls.length = 21 := by decide +kernel
  have hOverflow := ne_error_of_map_eq_ok hRan .overflow
  obtain ⟨hJoined, hShared⟩ := replay_in_parts store hReturns samples 1 {}
  obtain ⟨whole, split, final, hWhole, hSplit, hSame⟩ :=
    hJoined first second {} hInRange hOverflow
  obtain ⟨whole', tallies, final', summary, hWhole', hTallies, hSummary, hTotals⟩ :=
    hShared (first ++ second) 2 ranges (fun _ => {}) hRanges hInRange hOverflow
  rw [hWhole] at hRan hCalls hWhole'
  cases hWhole'
  have hMade : whole.counters = made := Except.ok.inj hRan
  exact ⟨hReturns, hRanges, hInRange, hOverflow, ⟨split, final, hSplit, hSame.trans hMade, hCalls⟩,
    tallies, final, summary, hTallies, hSummary, hTotals.trans hMade⟩

end Run

end StoreBench
