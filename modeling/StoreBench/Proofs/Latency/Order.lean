import Mathlib.Algebra.Order.BigOperators.Group.List
import Mathlib.Algebra.Order.Ring.Nat
import Mathlib.Data.List.GetD
import Mathlib.Data.List.Permutation
import Mathlib.Order.Bounds.Defs
import StoreBench.Latency
import StoreBench.Proofs.Sorting
import StoreBench.Proofs.Sums

/-! Samples in order. The statistics of samples depend on the samples alone and not on the order
they were taken in. The shortest and the longest one stand at the ends, the median stands or lies
in the middle, and half of the samples are on either side of it. Two middle samples can be added up
wherever the total of all samples is a duration. -/
namespace StoreBench

namespace Duration

/-- A list of durations is summed up as numbers are, if the sum is a duration. -/
theorem sum_of_le {list : List Duration} (h : list.sum ≤ longest) : sum list = .ok list.sum := by
  have hPart (a b : Duration) : a + b ≤ longest → a ≤ longest :=
    Nat.le_trans (Nat.le_add_right a b)
  have hSum : sum list = checkedAdd (· ≤ longest) 0 list.sum :=
    foldlM_checkedAdd (· ≤ longest) hPart (Nat.zero_le longest) list
  rw [hSum, checkedAdd_of_fits (by simpa using h), Nat.zero_add]

theorem add_of_le {a b : Duration} (h : a + b ≤ longest) : add a b = .ok (a + b) :=
  if_pos h

theorem share_of_ne_zero {d : Duration} {parts : Nat} (h : parts ≠ 0) :
    d.share parts = .ok (d / parts) :=
  if_neg h

end Duration

/-- The samples once more, shortest first. -/
structure Sorts (samples sorted : List Duration) : Prop where
  perm : sorted.Perm samples
  pairwise : sorted.Pairwise (· ≤ ·)

theorem sorts_mergeSort (samples : List Duration) : Sorts samples samples.mergeSort where
  perm := List.mergeSort_perm samples _
  pairwise := mergeSort_pairwise id samples

theorem mergeSort_samples {samples reordered : List Duration} (h : reordered.Perm samples) :
    reordered.mergeSort = samples.mergeSort :=
  mergeSort_of_perm id (fun _ _ _ _ hSame => hSame) h

namespace Sorts

variable {samples sorted : List Duration} (h : Sorts samples sorted)

include h

theorem length_eq : sorted.length = samples.length := h.perm.length_eq

theorem mergeSort_eq : samples.mergeSort = sorted := by
  rw [← mergeSort_samples h.perm]
  exact List.mergeSort_of_pairwise (by simpa using h.pairwise)

theorem getElem_mono {place later : Nat} (hLess : place ≤ later) (hLater : later < sorted.length) :
    sorted[place] ≤ sorted[later] := by
  cases Nat.lt_or_eq_of_le hLess with
  | inl hBefore => exact List.pairwise_iff_getElem.mp h.pairwise place later _ hLater hBefore
  | inr hSame => simp [hSame]

/-- The shortest sample comes first. -/
theorem least (hSome : 0 < samples.length) :
    IsLeast {sample | sample ∈ samples} (sorted.getD 0 0) := by
  rw [← h.length_eq] at hSome
  rw [List.getD_eq_getElem _ _ hSome]
  constructor
  · exact h.perm.mem_iff.mp (List.getElem_mem hSome)
  · intro sample hSample
    obtain ⟨place, hPlace, rfl⟩ := List.getElem_of_mem (h.perm.mem_iff.mpr hSample)
    exact h.getElem_mono (Nat.zero_le place) hPlace

/-- The longest sample comes last. -/
theorem greatest (hSome : 0 < samples.length) :
    IsGreatest {sample | sample ∈ samples} (sorted.getD (samples.length - 1) 0) := by
  rw [← h.length_eq] at hSome ⊢
  rw [List.getD_eq_getElem _ _ (by omega)]
  constructor
  · exact h.perm.mem_iff.mp (List.getElem_mem _)
  · intro sample hSample
    obtain ⟨place, hPlace, rfl⟩ := List.getElem_of_mem (h.perm.mem_iff.mpr hSample)
    exact h.getElem_mono (by omega) _

/-- A sample and all those in front of it are no longer than the sample. -/
theorem countP_le {place : Nat} (hPlace : place < sorted.length) :
    place < samples.countP (· ≤ sorted[place]) := by
  have hFront : (sorted.take (place + 1)).countP (· ≤ sorted[place]) = place + 1 := by
    rw [List.countP_eq_length.mpr, List.length_take_of_le hPlace]
    intro sample hSample
    obtain ⟨earlier, hEarlier, rfl⟩ := List.mem_take_iff_getElem.mp hSample
    simpa using h.getElem_mono (by omega) hPlace
  calc place < (sorted.take (place + 1)).countP (· ≤ sorted[place]) := by omega
    _ ≤ sorted.countP (· ≤ sorted[place]) := (List.take_sublist _ _).countP_le
    _ = samples.countP (· ≤ sorted[place]) := h.perm.countP_eq _

/-- A sample and all those behind it are no shorter than the sample. -/
theorem countP_ge {place : Nat} (hPlace : place < sorted.length) :
    samples.length - place ≤ samples.countP (sorted[place] ≤ ·) := by
  have hBack : (sorted.drop place).countP (sorted[place] ≤ ·) = sorted.length - place := by
    rw [List.countP_eq_length.mpr, List.length_drop]
    intro sample hSample
    obtain ⟨later, hLater, rfl⟩ := List.mem_drop_iff_getElem.mp hSample
    simpa using h.getElem_mono (Nat.le_add_right place later) _
  calc samples.length - place = (sorted.drop place).countP (sorted[place] ≤ ·) := by
        rw [hBack, h.length_eq]
    _ ≤ sorted.countP (sorted[place] ≤ ·) := (List.drop_sublist _ _).countP_le
    _ = samples.countP (sorted[place] ≤ ·) := h.perm.countP_eq _

/-- Two neighbours are a part of the total. -/
theorem neighbours_le {place : Nat} (hNext : place + 1 < sorted.length) :
    sorted[place] + sorted[place + 1] ≤ samples.sum := by
  have hParts : sorted.drop place =
      sorted[place] :: sorted[place + 1] :: sorted.drop (place + 2) := by
    rw [List.drop_eq_getElem_cons (by omega), List.drop_eq_getElem_cons hNext]
  calc sorted[place] + sorted[place + 1] ≤ (sorted.drop place).sum := by
        rw [hParts, List.sum_cons, List.sum_cons]
        exact Nat.add_le_add_left (Nat.le_add_right _ _) _
    _ ≤ sorted.sum := (List.drop_sublist place sorted).sum_le_sum fun _ _ => Nat.zero_le _
    _ = samples.sum := h.perm.sum_eq

end Sorts

/-- The two samples in the middle, which are one and the same if the number of samples is odd. At
least half of the samples are no longer than the upper one, and at least half of them are no shorter
than the lower one. -/
structure Middles (samples : List Duration) (lower upper : Duration) : Prop where
  places : ∃ sorted, Sorts samples sorted ∧
    sorted[(samples.length - 1) / 2]? = some lower ∧ sorted[samples.length / 2]? = some upper
  half_le : samples.length ≤ 2 * samples.countP (· ≤ upper)
  half_ge : samples.length ≤ 2 * samples.countP (lower ≤ ·)

theorem Sorts.exists_middles {samples sorted : List Duration} (h : Sorts samples sorted)
    (hSome : 0 < samples.length) : ∃ lower upper, Middles samples lower upper := by
  have hLength := h.length_eq
  have hLower : (samples.length - 1) / 2 < sorted.length := by omega
  have hUpper : samples.length / 2 < sorted.length := by omega
  refine ⟨sorted[(samples.length - 1) / 2], sorted[samples.length / 2], ?_⟩
  constructor
  case places =>
    exact ⟨sorted, h, List.getElem?_eq_getElem hLower, List.getElem?_eq_getElem hUpper⟩
  case half_le =>
    have hFront := h.countP_le hUpper
    omega
  case half_ge =>
    have hBack := h.countP_ge hLower
    omega

namespace Middles

variable {samples : List Duration} {lower upper : Duration} (h : Middles samples lower upper)

include h

theorem lower_mem : lower ∈ samples := by
  obtain ⟨sorted, hSorts, hLower, _⟩ := h.places
  exact hSorts.perm.mem_iff.mp (List.mem_of_getElem? hLower)

theorem upper_mem : upper ∈ samples := by
  obtain ⟨sorted, hSorts, _, hUpper⟩ := h.places
  exact hSorts.perm.mem_iff.mp (List.mem_of_getElem? hUpper)

theorem lower_le_upper : lower ≤ upper := by
  obtain ⟨sorted, hSorts, hLower, hUpper⟩ := h.places
  obtain ⟨_, rfl⟩ := List.getElem?_eq_some_iff.mp hLower
  obtain ⟨_, rfl⟩ := List.getElem?_eq_some_iff.mp hUpper
  exact hSorts.getElem_mono (by omega) _

theorem eq_of_odd (hOdd : samples.length % 2 = 1) : lower = upper := by
  obtain ⟨sorted, _, hLower, hUpper⟩ := h.places
  rw [show (samples.length - 1) / 2 = samples.length / 2 by omega, hUpper] at hLower
  exact (Option.some.inj hLower).symm

theorem le_halfway : lower ≤ (lower + upper) / 2 := by
  rw [Nat.le_div_iff_mul_le two_pos, Nat.mul_two]
  exact Nat.add_le_add_left h.lower_le_upper lower

theorem halfway_le : (lower + upper) / 2 ≤ upper := by
  apply Nat.div_le_of_le_mul
  rw [Nat.two_mul]
  exact Nat.add_le_add_right h.lower_le_upper upper

theorem halfway_of_odd (hOdd : samples.length % 2 = 1) : (lower + upper) / 2 = upper := by
  apply Nat.le_antisymm h.halfway_le
  simpa [h.eq_of_odd hOdd] using h.le_halfway

/-- Two different places in the middle are next to each other. -/
theorem add_le_sum (hEven : samples.length % 2 = 0) : lower + upper ≤ samples.sum := by
  obtain ⟨sorted, hSorts, hLower, hUpper⟩ := h.places
  obtain ⟨hPlace, rfl⟩ := List.getElem?_eq_some_iff.mp hLower
  have hNext : samples.length / 2 = (samples.length - 1) / 2 + 1 := by
    have hLength := hSorts.length_eq
    omega
  rw [hNext] at hUpper
  obtain ⟨hUpperPlace, rfl⟩ := List.getElem?_eq_some_iff.mp hUpper
  exact hSorts.neighbours_le hUpperPlace

end Middles

namespace LatencyStats

variable {samples : List Duration}

/-- The median lies halfway between the two middle samples, whose sum is a duration if it is needed
at all. -/
theorem middle_eq {sorted : List Duration} {lower upper : Duration} (hSorts : Sorts samples sorted)
    (h : Middles samples lower upper) (hFits : samples.sum ≤ Duration.longest) :
    middle sorted = .ok ((lower + upper) / 2) := by
  obtain ⟨other, hOther, hLower, hUpper⟩ := h.places
  rw [← hOther.mergeSort_eq, hSorts.mergeSort_eq] at hLower hUpper
  rw [middle, hSorts.length_eq]
  split
  · rename_i hEven
    have hBefore : samples.length / 2 - 1 = (samples.length - 1) / 2 := by omega
    rw [hBefore, List.getD_eq_getElem?_getD, List.getD_eq_getElem?_getD, hLower, hUpper]
    change (Duration.add lower upper >>= fun sum => sum.share 2) = _
    rw [Duration.add_of_le ((h.add_le_sum hEven).trans hFits)]
    exact Duration.share_of_ne_zero two_ne_zero
  · rename_i hOdd
    rw [List.getD_eq_getElem?_getD, hUpper, h.halfway_of_odd (by omega)]
    rfl

/-- Samples whose total is a duration have statistics unless their mean is divided by zero. -/
theorem ofSamples_eq (hSome : samples ≠ []) (hFits : samples.sum ≤ Duration.longest) :
    ∃ least greatest lower upper,
      IsLeast {sample | sample ∈ samples} least ∧
      IsGreatest {sample | sample ∈ samples} greatest ∧
      Middles samples lower upper ∧
      ofSamples samples =
        if divisor samples.length = 0 then .error .divisionByZero
        else .ok (some
          { count := samples.length, min := least, max := greatest, median := (lower + upper) / 2,
            mean := samples.sum / divisor samples.length }) := by
  have hSorts := sorts_mergeSort samples
  have hPlaces : 0 < samples.length := List.length_pos_of_ne_nil hSome
  obtain ⟨lower, upper, hMiddles⟩ := hSorts.exists_middles hPlaces
  refine ⟨_, _, lower, upper, hSorts.least hPlaces, hSorts.greatest hPlaces, hMiddles, ?_⟩
  have hTotal : Duration.sum samples.mergeSort = .ok samples.sum := by
    rw [Duration.sum_of_le, hSorts.perm.sum_eq]
    rwa [hSorts.perm.sum_eq]
  rw [ofSamples, if_neg (by simpa using hSome)]
  simp only [middle_eq hSorts hMiddles hFits, hTotal, hSorts.length_eq]
  change (Duration.share samples.sum (divisor samples.length) >>= fun mean => _) = _
  rw [Duration.share]
  split
  · rfl
  · rfl

theorem exists_stats_iff (hSome : samples ≠ []) (hFits : samples.sum ≤ Duration.longest) :
    (∃ stats, ofSamples samples = .ok (some stats)) ↔ divisor samples.length ≠ 0 := by
  obtain ⟨_, _, _, _, _, _, _, hStats⟩ := ofSamples_eq hSome hFits
  rw [hStats]
  split
  · simp_all
  · simp_all

theorem ofSamples_of_perm {reordered : List Duration} (h : reordered.Perm samples) :
    ofSamples reordered = ofSamples samples := by
  rw [ofSamples, ofSamples, h.isEmpty_eq, mergeSort_samples h]

/-- The statistics of samples whose total is a duration are those of the samples in any other order.
If there are any, the shortest and the longest sample are among them, and the median is the middle
sample, or halfway between the two middle ones, rounded down, whose sum is always a duration. -/
theorem order_statistics (hSome : samples ≠ []) (hFits : samples.sum ≤ Duration.longest) :
    ∃ lower upper, Middles samples lower upper ∧
      (samples.length % 2 = 1 → lower = upper) ∧
      (samples.length % 2 = 0 → Duration.add lower upper = .ok (lower + upper)) ∧
      (∀ reordered, reordered.Perm samples → ofSamples reordered = ofSamples samples) ∧
      ((∃ stats, ofSamples samples = .ok (some stats)) ↔ samples.length % 2 ^ 32 ≠ 0) ∧
      ∀ stats, ofSamples samples = .ok (some stats) →
        IsLeast {sample | sample ∈ samples} stats.min ∧
        IsGreatest {sample | sample ∈ samples} stats.max ∧
        stats.median = (if samples.length % 2 = 0 then (lower + upper) / 2 else upper) ∧
        stats.min ≤ stats.median ∧ stats.median ≤ stats.max := by
  obtain ⟨least, greatest, lower, upper, hLeast, hGreatest, hMiddles, hStats⟩ :=
    ofSamples_eq hSome hFits
  refine ⟨lower, upper, hMiddles, hMiddles.eq_of_odd, ?_, fun _ => ofSamples_of_perm,
    exists_stats_iff hSome hFits, ?_⟩
  · intro hEven
    exact Duration.add_of_le ((hMiddles.add_le_sum hEven).trans hFits)
  · intro stats hThere
    rw [hStats] at hThere
    split at hThere
    · cases hThere
    cases hThere
    refine ⟨hLeast, hGreatest, ?_, ?_, ?_⟩
    · split
      · rfl
      · exact hMiddles.halfway_of_odd (by omega)
    · exact (hLeast.2 hMiddles.lower_mem).trans hMiddles.le_halfway
    · exact hMiddles.halfway_le.trans (hGreatest.2 hMiddles.upper_mem)

/-- Four samples, the longest of which leaves the others just enough room, in two orders. -/
theorem order_statistics_four :
    let samples : List Duration := [Duration.longest - 10, 2, 1, 4]
    let stats : LatencyStats := ⟨4, 1, Duration.longest - 10, 3, (Duration.longest - 3) / 4⟩
    samples ≠ [] ∧ samples.sum ≤ Duration.longest ∧
      ofSamples [1, 2, 4, Duration.longest - 10] = .ok (some stats) ∧
      stats.min ≤ stats.median ∧ stats.median ≤ stats.max := by
  intro samples stats
  have hStats : ofSamples samples = .ok (some stats) := by cbv
  have hSome : samples ≠ [] := by decide
  have hFits : samples.sum ≤ Duration.longest := by decide
  obtain ⟨_, _, _, _, _, hOrders, _, hOrdered⟩ := order_statistics hSome hFits
  obtain ⟨_, _, _, hMin, hMax⟩ := hOrdered stats hStats
  exact ⟨hSome, hFits, (hOrders _ (by decide)).trans hStats, hMin, hMax⟩

end LatencyStats

end StoreBench
