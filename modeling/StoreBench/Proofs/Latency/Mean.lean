import Mathlib.Tactic.Ring
import StoreBench.Proofs.Latency.Order

/-! The mean of samples. Their total is divided by their number cut down to a 32-bit word. That is
the number itself for fewer than `2 ^ 32` samples, and the mean is then between the shortest and the
longest of them. From there on the divisor is too small: it may be zero, and otherwise the mean is
too large unless the total is less than the divisor. -/
namespace StoreBench

namespace LatencyStats

variable {samples : List Duration}

theorem divisor_of_lt {count : Nat} (h : count < 2 ^ 32) : divisor count = count :=
  Nat.mod_eq_of_lt h

/-- A divisor of less than half the size leaves a quotient as it is only if both are zero. -/
theorem div_eq_div_iff_lt {total small large : Nat} (hSmall : 0 < small)
    (hLarge : 2 * small ≤ large) : total / small = total / large ↔ total < small := by
  constructor
  · intro hEq
    by_contra hMore
    have hQuotient : 1 ≤ total / large := by
      rw [← hEq]
      exact (Nat.one_le_div_iff hSmall).mpr (Nat.le_of_not_lt hMore)
    have hTwice : 2 * (total / large) ≤ total / small := by
      rw [Nat.le_div_iff_mul_le hSmall]
      calc 2 * (total / large) * small = total / large * (2 * small) := by ring
        _ ≤ total / large * large := Nat.mul_le_mul_left _ hLarge
        _ ≤ total := Nat.div_mul_le_self total large
    omega
  · intro hLess
    rw [Nat.div_eq_of_lt hLess, Nat.div_eq_of_lt (by omega)]

theorem div_divisor_iff {total count : Nat} (h : divisor count ≠ 0) :
    total / divisor count = total / count ↔ count < 2 ^ 32 ∨ total < count % 2 ^ 32 := by
  by_cases hFew : count < 2 ^ 32
  · rw [divisor_of_lt hFew]
    exact iff_of_true rfl (Or.inl hFew)
  · have hDivisor : divisor count = count % 2 ^ 32 := rfl
    rw [div_eq_div_iff_lt (Nat.pos_of_ne_zero h) (by omega), hDivisor, or_iff_right hFew]

/-- A mean lies between the shortest sample and the longest one. -/
theorem mean_between (hSome : samples ≠ []) {least greatest : Duration}
    (hLeast : IsLeast {sample | sample ∈ samples} least)
    (hGreatest : IsGreatest {sample | sample ∈ samples} greatest) :
    least ≤ samples.sum / samples.length ∧ samples.sum / samples.length ≤ greatest := by
  have hLength : 0 < samples.length := List.length_pos_of_ne_nil hSome
  have hBelow := List.card_nsmul_le_sum samples least fun _ hSample => hLeast.2 hSample
  have hAbove := List.sum_le_card_nsmul samples greatest fun _ hSample => hGreatest.2 hSample
  rw [Nat.nsmul_eq_mul] at hBelow hAbove
  constructor
  · rwa [Nat.le_div_iff_mul_le hLength, Nat.mul_comm]
  · exact Nat.div_le_of_le_mul hAbove

/-- Samples that are all alike are as long as the shortest, the longest and the middle ones. -/
theorem ofSamples_replicate {count : Nat} {d : Duration} (hSome : count ≠ 0)
    (hFits : count * d ≤ Duration.longest) :
    ofSamples (List.replicate count d) =
      if divisor count = 0 then .error .divisionByZero
      else .ok (some ⟨count, d, d, d, count * d / divisor count⟩) := by
  have hSum : (List.replicate count d).sum = count * d := List.sum_replicate count d
  have hThere : List.replicate count d ≠ [] := by simpa using hSome
  obtain ⟨least, greatest, lower, upper, hLeast, hGreatest, hMiddles, hStats⟩ :=
    ofSamples_eq hThere (hSum.trans_le hFits)
  obtain rfl : least = d := List.eq_of_mem_replicate hLeast.1
  obtain rfl : greatest = least := List.eq_of_mem_replicate hGreatest.1
  obtain rfl : lower = greatest := List.eq_of_mem_replicate hMiddles.lower_mem
  obtain rfl : upper = lower := List.eq_of_mem_replicate hMiddles.upper_mem
  have hHalf : (upper + upper) / 2 = upper :=
    Nat.le_antisymm hMiddles.halfway_le hMiddles.le_halfway
  rw [hStats, hSum, hHalf, List.length_replicate]

/-- Samples whose total is a duration have their mean in their statistics, between the shortest and
the longest of them, exactly if there are fewer of them than 32-bit words, or the nanoseconds of
their total are fewer than what their number leaves modulo `2 ^ 32`. Where it leaves nothing, the
total is divided by zero; otherwise it is divided by what is left. -/
theorem mean_exact_iff (hSome : samples ≠ []) (hFits : samples.sum ≤ Duration.longest) :
    ((∃ stats, ofSamples samples = .ok (some stats) ∧ stats.count = samples.length ∧
        stats.mean = samples.sum / samples.length ∧
        stats.min ≤ stats.mean ∧ stats.mean ≤ stats.max) ↔
      samples.length < 2 ^ 32 ∨ samples.sum < samples.length % 2 ^ 32) ∧
    (ofSamples samples = .error .divisionByZero ↔ samples.length % 2 ^ 32 = 0) ∧
    (samples.length % 2 ^ 32 ≠ 0 →
      ∃ stats, ofSamples samples = .ok (some stats) ∧ stats.count = samples.length ∧
        stats.mean = samples.sum / (samples.length % 2 ^ 32)) := by
  have hLength : 0 < samples.length := List.length_pos_of_ne_nil hSome
  obtain ⟨least, greatest, lower, upper, hLeast, hGreatest, _, hStats⟩ := ofSamples_eq hSome hFits
  have hBetween := mean_between hSome hLeast hGreatest
  have hDivisor : divisor samples.length = samples.length % 2 ^ 32 := rfl
  rw [← hDivisor]
  by_cases hZero : divisor samples.length = 0
  · rw [if_pos hZero] at hStats
    rw [hStats]
    refine ⟨?_, by simp [hZero], fun hNot => absurd hZero hNot⟩
    apply iff_of_false
    · rintro ⟨stats, hThere, _⟩
      cases hThere
    · rw [hZero, not_or]
      exact ⟨by omega, Nat.not_lt_zero _⟩
  · rw [if_neg hZero] at hStats
    rw [hStats]
    refine ⟨?_, by simp [hZero], fun _ => ⟨_, rfl, rfl, rfl⟩⟩
    rw [hDivisor, ← div_divisor_iff hZero]
    constructor
    · rintro ⟨stats, hThere, _, hMean, _⟩
      cases hThere
      exact hMean
    · intro hMean
      exact ⟨_, rfl, rfl, hMean, hMean ▸ hBetween⟩

/-- The total of these three samples is one nanosecond short of the longest duration. -/
theorem mean_exact_iff_three :
    let samples : List Duration := [1, Duration.longest - 4, 2]
    samples ≠ [] ∧ samples.sum ≤ Duration.longest ∧
      ∃ stats, ofSamples samples = .ok (some stats) ∧ stats.count = 3 ∧
        stats.mean = (Duration.longest - 1) / 3 ∧
        stats.min ≤ stats.mean ∧ stats.mean ≤ stats.max := by
  intro samples
  have hSome : samples ≠ [] := by decide
  have hFits : samples.sum ≤ Duration.longest := by decide
  obtain ⟨stats, hStats, hCount, hMean, hBetween⟩ :=
    (mean_exact_iff hSome hFits).1.mpr (Or.inl (by decide))
  exact ⟨hSome, hFits, stats, hStats, hCount, hMean, hBetween⟩

/-- So many samples of one microsecond that their number leaves nothing modulo `2 ^ 32`, and one
sample more, which makes the mean the total of all of them. -/
theorem mean_wrongly_divided :
    let samples : List Duration := List.replicate (2 ^ 32) 1000
    let more : List Duration := List.replicate (2 ^ 32 + 1) 1000
    (samples ≠ [] ∧ samples.sum ≤ Duration.longest ∧ samples.length < 2 ^ 59 ∧
      ofSamples samples = .error .divisionByZero) ∧
    (more ≠ [] ∧ more.sum ≤ Duration.longest ∧ more.length < 2 ^ 59 ∧
      ∃ stats, ofSamples more = .ok (some stats) ∧ stats.count = more.length ∧
        stats.mean = more.sum ∧ stats.max < stats.mean) := by
  intro samples more
  have hSamples : samples.length = 2 ^ 32 := List.length_replicate
  have hMore : more.length = 2 ^ 32 + 1 := List.length_replicate
  have hSum : samples.sum = 2 ^ 32 * 1000 := List.sum_replicate _ _
  have hMoreSum : more.sum = (2 ^ 32 + 1) * 1000 := List.sum_replicate _ _
  have hStats : ofSamples samples = _ := ofSamples_replicate (by decide) (by decide)
  have hMoreStats : ofSamples more = _ := ofSamples_replicate (by decide) (by decide)
  rw [hSum, hMoreSum, hSamples, hMore, hStats, hMoreStats]
  refine ⟨⟨?_, by decide, by decide, rfl⟩, ?_, by decide, by decide, _, rfl, rfl, rfl, by decide⟩
  · exact List.ne_nil_of_length_pos (by rw [hSamples]; decide)
  · exact List.ne_nil_of_length_pos (by rw [hMore]; decide)

end LatencyStats

end StoreBench
