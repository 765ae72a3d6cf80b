import Mathlib.Algebra.Order.Ring.Nat
import Mathlib.Tactic.Positivity
import StoreBench.Profile.Coverage

/-! Whole numbers among the doubles. Below `2 ^ 53` they are added, subtracted and compared without
any rounding, so what a selection does with whole weights is arithmetic of natural numbers. A larger
sum may be rounded, but not below such a number that it has reached. -/
namespace StoreBench.Binary64

/-- Whole numbers below this one are doubles, all of them. -/
def wholeLimit : Nat := 2 ^ 53

/-- A whole number, of either sign. -/
def IsWhole (weight : Binary64) : Prop := ∃ negative n, weight = .finite negative (n * one)

/-- The double is this natural number. Zero has two doubles. -/
inductive Counts : Binary64 → Nat → Prop where
  | whole (n : Nat) : Counts (.finite false (n * one)) n
  | negativeZero : Counts (.finite true 0) 0

theorem twoPow_eq (exponent : Nat) : twoPow exponent = 2 ^ exponent := Nat.pow_eq

theorem one_eq : one = 2 ^ fractionBits := twoPow_eq fractionBits

theorem one_pos : 0 < one := by
  rw [one_eq]
  exact Nat.two_pow_pos fractionBits

theorem limit_eq : limit = 2 ^ wholeBits * one := by
  rw [limit, one_eq, twoPow_eq, Nat.pow_add]

/-- A number of units with no bits but the leading 53 is kept as it is. -/
theorem significant_of_dvd {units : Nat} (h : 2 ^ excess units ∣ units) :
    significant units 1 = units := by
  have hStep : 0 < 2 ^ excess units := Nat.two_pow_pos _
  have hRest : units % 2 ^ excess units = 0 := Nat.mod_eq_zero_of_dvd h
  have hNearest : nearest units (2 ^ excess units) = units / 2 ^ excess units := by
    simp [nearest, hRest, hStep]
  calc significant units 1
      = nearest units (2 ^ excess units) * 2 ^ excess units := by
        simp [significant, Nat.div_one, twoPow_eq]
    _ = units / 2 ^ excess units * 2 ^ excess units := by rw [hNearest]
    _ = units := Nat.div_mul_cancel h

/-- A small number, shifted up, has no more bits than a double keeps. -/
theorem excess_shifted {n : Nat} (h : n < wholeLimit) (exponent : Nat) :
    excess (n * 2 ^ exponent) ≤ exponent := by
  by_cases hZero : n = 0
  · simp [hZero, excess]
  · have hLog : (n * 2 ^ exponent).log2 = n.log2 + exponent := by
      induction exponent with
      | zero => simp
      | succ exponent ih =>
          have hPositive : n * 2 ^ exponent ≠ 0 := by positivity
          rw [Nat.pow_succ, ← Nat.mul_assoc, Nat.mul_comm _ 2, Nat.log2_two_mul hPositive, ih]
          rfl
    have hSmall : n.log2 < 53 := (Nat.log2_lt hZero).mpr h
    simp only [excess, hLog]
    omega

/-- A small whole number of either sign is a double. -/
theorem ofUnits_whole {n : Nat} (h : n < wholeLimit) (negative : Bool) :
    ofUnits negative (n * one) 1 = .finite negative (n * one) := by
  have hExact : significant (n * one) 1 = n * one := by
    apply significant_of_dvd
    rw [one_eq]
    exact Dvd.dvd.mul_left (pow_dvd_pow 2 (excess_shifted h fractionBits)) n
  have hBelow : n * one < limit := by
    rw [limit_eq]
    apply Nat.mul_lt_mul_of_pos_right _ one_pos
    calc n < 2 ^ 53 := h
      _ ≤ 2 ^ wholeBits := Nat.pow_le_pow_right (by decide) (by decide)
  simp only [ofUnits, hExact, hBelow, if_true]

theorem nearest_mul {factor : Nat} (h : 0 < factor) (num den : Nat) :
    nearest (factor * num) (factor * den) = nearest num den := by
  have hLess : 2 * (factor * (num % den)) < factor * den ↔ 2 * (num % den) < den := by
    rw [Nat.mul_left_comm]
    exact Nat.mul_lt_mul_left h
  have hHalf : 2 * (factor * (num % den)) = factor * den ↔ 2 * (num % den) = den := by
    rw [Nat.mul_left_comm]
    exact Nat.mul_right_inj (Nat.ne_of_gt h)
  simp only [nearest, Nat.mul_div_mul_left _ _ h, Nat.mul_mod_mul_left, hLess, hHalf,
    Bool.beq_eq_decide_eq]

/-- Rounding depends on the quotient alone. -/
theorem significant_mul {factor : Nat} (h : 0 < factor) (num den : Nat) :
    significant (factor * num) (factor * den) = significant num den := by
  simp only [significant, Nat.mul_div_mul_left _ _ h, Nat.mul_assoc, nearest_mul h]

theorem ofNat_whole {n : Nat} (h : n < wholeLimit) : ofNat n = .finite false (n * one) := by
  rw [ofNat, ofRatio, ofUnits_whole h]

theorem powerOfTen_zero : powerOfTen 0 = .finite false one := by
  have hDigits : 1 * Nat.pow 10 (0 : Int).toNat = 1 := rfl
  have hOne := ofNat_whole (show 1 < wholeLimit by decide)
  rw [Nat.one_mul, ofNat] at hOne
  rw [powerOfTen, ofDecimal, if_neg (by decide), if_neg (by decide), if_pos (by decide)]
  exact (congrArg (ofRatio false · 1) hDigits).trans hOne

/-- A small whole number without exponent is not moved. -/
theorem scale_zero {n : Nat} (h : n < wholeLimit) : (ofNat n).scale 0 = .finite false (n * one) := by
  have hProduct : ofUnits false (n * one * one) one = ofUnits false (n * one) 1 := by
    have hSame := significant_mul one_pos (n * one) 1
    rw [Nat.mul_one, Nat.mul_comm one] at hSame
    rw [ofUnits, ofUnits, hSame]
  rw [scale, if_pos (by decide), if_pos (by decide), Int.toNat_zero, powerOfTen_zero,
    ofNat_whole h, mul, bne_self_eq_false, hProduct, ofUnits_whole h]

theorem ofNat_counts {n : Nat} (h : n < wholeLimit) : Counts (ofNat n) n := by
  rw [ofNat_whole h]
  exact .whole n

namespace Counts

variable {x y : Binary64} {m n : Nat}

/-- In comparisons the zeros are one number. -/
theorem exists_units (h : Counts x m) :
    ∃ negative units, x = .finite negative units ∧ signed negative units = (m * one : Nat) := by
  cases h with
  | whole => exact ⟨false, m * one, rfl, rfl⟩
  | negativeZero => exact ⟨true, 0, rfl, by simp [signed]⟩

theorem less_iff (hx : Counts x m) (hy : Counts y n) : x.less y = true ↔ m < n := by
  obtain ⟨_, _, rfl, hLeft⟩ := hx.exists_units
  obtain ⟨_, _, rfl, hRight⟩ := hy.exists_units
  rw [less, decide_eq_true_iff, hLeft, hRight, Int.ofNat_lt]
  exact Nat.mul_lt_mul_right one_pos

theorem atMost_iff (hx : Counts x m) (hy : Counts y n) : x.atMost y = true ↔ m ≤ n := by
  obtain ⟨_, _, rfl, hLeft⟩ := hx.exists_units
  obtain ⟨_, _, rfl, hRight⟩ := hy.exists_units
  rw [atMost, decide_eq_true_iff, hLeft, hRight, Int.ofNat_le]
  exact Nat.mul_le_mul_right_iff one_pos

theorem add (hx : Counts x m) (hy : Counts y n) (h : m + n < wholeLimit) :
    Counts (x.add y) (m + n) := by
  have hSum := ofUnits_whole h false
  cases hx with
  | whole m =>
      cases hy with
      | whole n =>
          rw [Binary64.add, if_pos rfl, ← Nat.add_mul, hSum]
          exact .whole (m + n)
      | negativeZero =>
          rw [Nat.add_zero] at hSum ⊢
          rcases Nat.eq_zero_or_pos m with rfl | hPositive
          · simpa [Binary64.add] using Counts.whole 0
          · have hUnits : 0 < m * one := Nat.mul_pos hPositive one_pos
            rw [Binary64.add, if_neg (by simp), if_neg hUnits.ne', if_pos hUnits, Nat.sub_zero,
              hSum]
            exact .whole m
  | negativeZero =>
      cases hy with
      | whole n =>
          rw [Nat.zero_add] at hSum ⊢
          rcases Nat.eq_zero_or_pos n with rfl | hPositive
          · simpa [Binary64.add] using Counts.whole 0
          · have hUnits : 0 < n * one := Nat.mul_pos hPositive one_pos
            rw [Binary64.add, if_neg (by simp), if_neg hUnits.ne, if_neg (by omega), Nat.sub_zero,
              hSum]
            exact .whole n
      | negativeZero =>
          have hZero := ofUnits_whole h true
          rw [Nat.add_zero, Nat.zero_mul] at hZero
          rw [Binary64.add, if_pos rfl, Nat.add_zero, hZero]
          exact .negativeZero

theorem sub (hx : Counts x m) (hy : Counts y n) (hLess : n < m) (h : m < wholeLimit) :
    Counts (x.sub y) (m - n) := by
  have hRest := ofUnits_whole (Nat.lt_of_le_of_lt (Nat.sub_le m n) h) false
  cases hx with
  | negativeZero => omega
  | whole m =>
      cases hy with
      | whole n =>
          have hUnits : n * one < m * one := Nat.mul_lt_mul_of_pos_right hLess one_pos
          simp only [Binary64.sub, neg, Bool.not_false]
          rw [Binary64.add, if_neg (by simp), if_neg hUnits.ne', if_pos hUnits, ← Nat.sub_mul,
            hRest]
          exact .whole (m - n)
      | negativeZero =>
          rw [Nat.sub_zero] at hRest ⊢
          simp only [Binary64.sub, neg, Bool.not_true]
          rw [Binary64.add, if_pos rfl, Nat.add_zero, hRest]
          exact .whole m

end Counts

/-- What is less than a number is less than all numbers above it. -/
theorem less_ofNat_mono {x : Binary64} {m n : Nat} (hLess : m ≤ n) (hSmall : n < wholeLimit)
    (h : x.less (ofNat m) = true) : x.less (ofNat n) = true := by
  obtain ⟨_, _, hLeft, hLow⟩ := (ofNat_counts (Nat.lt_of_le_of_lt hLess hSmall)).exists_units
  obtain ⟨_, _, hRight, hHigh⟩ := (ofNat_counts hSmall).exists_units
  rw [hLeft] at h
  rw [hRight]
  cases x with
  | nan => cases h
  | infinite => exact h
  | finite negative units =>
      rw [less, decide_eq_true_iff] at h ⊢
      rw [hLow] at h
      rw [hHigh]
      exact Int.lt_of_lt_of_le h (Int.ofNat_le.mpr (Nat.mul_le_mul_right one hLess))

/-- A whole number that is not below zero is a natural number. -/
theorem IsWhole.exists_counts {weight : Binary64} (h : weight.IsWhole)
    (hSign : weight.isNegative = false) : ∃ n, Counts weight n := by
  obtain ⟨negative, n, rfl⟩ := h
  cases negative with
  | false => exact ⟨n, .whole n⟩
  | true =>
      have hUnits : n * one = 0 := by
        simp only [isNegative, less, decide_eq_false_iff_not, signed, if_true] at hSign
        generalize n * one = units at hSign ⊢
        omega
      rw [hUnits]
      exact ⟨0, .negativeZero⟩

/-- Weights add up as natural numbers do, as long as the sum is small. -/
theorem sum_counts {weights : List Binary64} {counts : List Nat}
    (h : List.Forall₂ Counts weights counts) (hSmall : counts.sum < wholeLimit) :
    Counts (sum weights) counts.sum := by
  have hFrom (start : Binary64) (first : Nat) (hStart : Counts start first)
      (hBound : first + counts.sum < wholeLimit) :
      Counts (weights.foldl Binary64.add start) (first + counts.sum) := by
    clear hSmall
    induction h generalizing start first with
    | nil => exact hStart
    | @cons weight count weights counts hWeight _ ih =>
        rw [List.sum_cons, ← Nat.add_assoc] at hBound ⊢
        exact ih _ _ (hStart.add hWeight (by omega)) hBound
  simpa [sum] using hFrom negativeZero 0 .negativeZero (by simpa using hSmall)

section Rounding

theorem div_le_nearest (num den : Nat) : num / den ≤ nearest num den := by
  rw [nearest]
  split
  · exact Nat.le_refl _
  · exact Nat.le_succ _

/-- A number with no bits but those that are kept is not rounded past. -/
theorem le_significant_of_dvd {kept units : Nat} (hKept : 2 ^ excess units ∣ kept)
    (h : kept ≤ units) : kept ≤ significant units 1 :=
  calc kept
      = kept / 2 ^ excess units * 2 ^ excess units := (Nat.div_mul_cancel hKept).symm
    _ ≤ units / 2 ^ excess units * 2 ^ excess units :=
        Nat.mul_le_mul_right _ (Nat.div_le_div_right h)
    _ ≤ nearest units (2 ^ excess units) * 2 ^ excess units :=
        Nat.mul_le_mul_right _ (div_le_nearest _ _)
    _ = significant units 1 := by simp [significant, Nat.div_one, twoPow_eq]

/-- Rounding does not fall below a small whole number. -/
theorem le_significant {n units : Nat} (hSmall : n < wholeLimit) (h : n * one ≤ units) :
    n * one ≤ significant units 1 := by
  rw [one_eq] at h ⊢
  -- Any exponent will do, and no tactic is to evaluate this one.
  generalize fractionBits = exponent at h ⊢
  by_cases hUnits : units < 2 ^ (53 + exponent)
  · have hExcess : excess units ≤ exponent := by
      by_cases hZero : units = 0
      · simp [hZero, excess]
      · have hLog : units.log2 < 53 + exponent := (Nat.log2_lt hZero).mpr hUnits
        rw [excess]
        omega
    exact le_significant_of_dvd (Dvd.dvd.mul_left (pow_dvd_pow 2 hExcess) n) h
  · -- The leading bit of a larger number is above all small ones.
    have hSome : units ≠ 0 := by
      have := Nat.two_pow_pos (53 + exponent)
      omega
    have hLog : 53 + exponent ≤ units.log2 := (Nat.le_log2 hSome).mpr (Nat.le_of_not_lt hUnits)
    have hLead : 2 ^ excess units ∣ 2 ^ units.log2 := pow_dvd_pow 2 (by rw [excess]; omega)
    calc n * 2 ^ exponent
        ≤ 2 ^ 53 * 2 ^ exponent := Nat.mul_le_mul_right _ (Nat.le_of_lt hSmall)
      _ = 2 ^ (53 + exponent) := (Nat.pow_add 2 53 exponent).symm
      _ ≤ 2 ^ units.log2 := Nat.pow_le_pow_right (by decide) hLog
      _ ≤ significant units 1 := le_significant_of_dvd hLead (Nat.log2_self_le hSome)

end Rounding

/-- From this whole number on, infinity included. -/
inductive Reaches : Binary64 → Nat → Prop where
  | infinite (n : Nat) : Reaches (.infinite false) n
  | finite {n units : Nat} (h : n * one ≤ units) : Reaches (.finite false units) n

/-- A summand that takes nothing away: a natural number, or infinity. -/
inductive Amount : Binary64 → Prop where
  | counts {x : Binary64} {n : Nat} (h : Counts x n) : Amount x
  | infinite : Amount (.infinite false)

theorem ofUnits_reaches {n units : Nat} (hSmall : n < wholeLimit) (h : n * one ≤ units) :
    Reaches (ofUnits false units 1) n := by
  rw [ofUnits]
  split
  · exact .finite (le_significant hSmall h)
  · exact .infinite n

theorem Counts.reaches {x : Binary64} {m n : Nat} (h : Counts x m) (hSome : 1 ≤ n)
    (hLess : n ≤ m) : Reaches x n := by
  cases h with
  | whole => exact .finite (Nat.mul_le_mul_right one hLess)
  | negativeZero => omega

namespace Reaches

variable {x y : Binary64} {n : Nat}

theorem not_less (h : Reaches x n) (hSmall : n < wholeLimit) : x.less (ofNat n) = false := by
  obtain ⟨_, _, hNumber, hUnits⟩ := (ofNat_counts hSmall).exists_units
  rw [hNumber]
  cases h with
  | infinite => rfl
  | finite h =>
      rw [less, decide_eq_false_iff_not, hUnits, signed, if_neg (by simp)]
      omega

theorem add (h : Reaches x n) (hSmall : n < wholeLimit) (hAmount : Amount y) :
    Reaches (x.add y) n := by
  cases h with
  | infinite =>
      cases hAmount with
      | counts hCounts =>
          obtain ⟨_, _, rfl, _⟩ := hCounts.exists_units
          exact .infinite n
      | infinite => exact .infinite n
  | @finite n units h =>
      cases hAmount with
      | infinite => exact .infinite n
      | counts hCounts =>
          cases hCounts with
          | whole m =>
              rw [Binary64.add, if_pos rfl]
              exact ofUnits_reaches hSmall (Nat.le_add_right_of_le h)
          | negativeZero =>
              rw [Binary64.add, if_neg (by simp)]
              split
              · rename_i hZero
                exact .finite (hZero ▸ h)
              · rw [if_pos (by omega)]
                exact ofUnits_reaches hSmall h

theorem foldl (h : Reaches x n) (hSmall : n < wholeLimit) {weights : List Binary64}
    (hAmounts : ∀ weight ∈ weights, Amount weight) :
    Reaches (weights.foldl Binary64.add x) n := by
  induction weights generalizing x with
  | nil => exact h
  | cons weight rest ih =>
      obtain ⟨hFirst, hRest⟩ := List.forall_mem_cons.mp hAmounts
      exact ih (h.add hSmall hFirst) hRest

end Reaches

/-- A sum reaches all small numbers up to the exact sum, rounded or not. -/
theorem Counts.add_reaches {x y : Binary64} {k m n : Nat} (hx : Counts x m) (hy : Counts y k)
    (hSome : 1 ≤ n) (hSmall : n < wholeLimit) (h : n ≤ m + k) : Reaches (x.add y) n := by
  cases hx with
  | whole m =>
      cases hy with
      | whole k =>
          rw [Binary64.add, if_pos rfl, ← Nat.add_mul]
          exact ofUnits_reaches hSmall (Nat.mul_le_mul_right one h)
      | negativeZero =>
          exact ((Counts.whole m).reaches hSome h).add hSmall (.counts .negativeZero)
  | negativeZero =>
      rw [Nat.zero_add] at h
      cases hy with
      | negativeZero => omega
      | whole k =>
          have hUnits : 0 < k * one := Nat.mul_pos (by omega) one_pos
          rw [Binary64.add, if_neg (by simp), if_neg hUnits.ne, if_neg (by omega), Nat.sub_zero]
          exact ofUnits_reaches hSmall (Nat.mul_le_mul_right one h)

section NaN

theorem atMost_nan (x : Binary64) : x.atMost .nan = false := by
  cases x <;> rfl

theorem sub_nan (x : Binary64) : x.sub .nan = .nan := by
  cases x <;> rfl

theorem add_nan (x : Binary64) : x.add .nan = .nan := by
  cases x <;> rfl

theorem foldl_nan (weights : List Binary64) : weights.foldl Binary64.add .nan = .nan := by
  induction weights with
  | nil => rfl
  | cons weight rest ih => exact ih

theorem sum_of_mem_nan {weights : List Binary64} (h : nan ∈ weights) : sum weights = .nan := by
  obtain ⟨before, after, rfl⟩ := List.append_of_mem h
  rw [sum, List.foldl_append, List.foldl_cons, add_nan, foldl_nan]

/-- The weights in front of the first NaN. -/
def untilNan (weights : List Binary64) : List Binary64 := weights.takeWhile (· ≠ .nan)

end NaN

end StoreBench.Binary64
