import Mathlib.Data.List.TakeWhile
import StoreBench.Proofs.Profile.Selection

/-! What a valid table promises. Validation adds weights up and refuses a sum below the range, and
selection takes weights off a draw and accepts one that is large enough. With whole weights and
infinities the two agree. A NaN makes every sum one that is not below the range, and at the same
time it ends every selection that gets to it, so only the weights in front of it can be selected. -/
namespace StoreBench

open Binary64 (Counts Amount Reaches wholeLimit untilNan)

/-- A weight whose arithmetic is exact: a whole number, an infinity or NaN. -/
def Binary64.Regular (weight : Binary64) : Prop :=
  weight.IsWhole ∨ (∃ negative, weight = .infinite negative) ∨ weight = .nan

theorem Binary64.Regular.amount {weight : Binary64} (h : weight.Regular)
    (hSign : weight.isNegative = false) (hNumber : weight ≠ .nan) : Amount weight := by
  rcases h with hWhole | ⟨negative, rfl⟩ | rfl
  · obtain ⟨_, hCounts⟩ := hWhole.exists_counts hSign
    exact .counts hCounts
  · cases negative with
    | false => exact .infinite
    | true => cases hSign
  · exact absurd rfl hNumber

section Scan

variable {α : Type} {items : List (α × Binary64)}

/-- Once NaN was taken off a draw, nothing is selected. -/
theorem weightedScan_nan (items : List (α × Binary64)) : weightedScan .nan items = none := by
  induction items with
  | nil => rfl
  | cons entry rest ih => exact ih

theorem amount_of_mem_untilNan {weights : List Binary64}
    (hWeights : ∀ weight ∈ weights, weight ≠ .nan → Amount weight) :
    ∀ weight ∈ untilNan weights, Amount weight := by
  intro weight hMem
  exact hWeights weight (List.takeWhile_subset _ hMem) (by simpa using List.mem_takeWhile_imp hMem)

/-- The scan ends without an item exactly if the weights in front of the first NaN sum up to less
than the draw. The sum goes on from `first` where the draw has come down to `draw`. -/
theorem weightedScan_eq_none_iff
    (hItems : ∀ weight ∈ items.map Prod.snd, weight ≠ .nan → Amount weight)
    {residual start : Binary64} {draw first : Nat} (hResidual : Counts residual draw)
    (hStart : Counts start first) (hDraw : 1 ≤ draw) (hSmall : first + draw < wholeLimit) :
    weightedScan residual items = none ↔
      ((untilNan (items.map Prod.snd)).foldl Binary64.add start).less
        (Binary64.ofNat (first + draw)) = true := by
  have hTarget := Binary64.ofNat_counts hSmall
  induction items generalizing residual start draw first with
  | nil =>
      have hLess := (hStart.less_iff hTarget).mpr (by omega)
      simpa [weightedScan, untilNan] using hLess
  | cons entry rest ih =>
      obtain ⟨item, weight⟩ := entry
      obtain ⟨hWeight, hRest⟩ := List.forall_mem_cons.mp hItems
      by_cases hNan : weight = .nan
      · subst hNan
        have hLess := (hStart.less_iff hTarget).mpr (by omega)
        simpa [weightedScan, untilNan, Binary64.atMost_nan, Binary64.sub_nan, weightedScan_nan]
          using hLess
      · have hUntil : untilNan (((item, weight) :: rest).map Prod.snd) =
            weight :: untilNan (rest.map Prod.snd) := by
          simp [untilNan, hNan]
        rw [hUntil, List.foldl_cons, weightedScan]
        -- An item that is selected brings the sum up to the draw, and there it stays.
        have hStays (hReached : Reaches (start.add weight) (first + draw)) :
            ((untilNan (rest.map Prod.snd)).foldl Binary64.add (start.add weight)).less
              (Binary64.ofNat (first + draw)) = false :=
          (hReached.foldl hSmall (amount_of_mem_untilNan hRest)).not_less hSmall
        cases hWeight hNan with
        | infinite =>
            obtain ⟨_, _, rfl, _⟩ := hResidual.exists_units
            obtain ⟨_, _, rfl, _⟩ := hStart.exists_units
            simp [Binary64.atMost, hStays (.infinite _)]
        | @counts _ n hCounts =>
            by_cases hFits : draw ≤ n
            · have hReached := hStart.add_reaches hCounts (by omega) hSmall
                (Nat.add_le_add_left hFits first)
              simp [(hResidual.atMost_iff hCounts).mpr hFits, hStays hReached]
            · have hOver : ¬ residual.atMost weight = true :=
                fun hAtMost => hFits ((hResidual.atMost_iff hCounts).mp hAtMost)
              have hLeft : Counts (residual.sub weight) (draw - n) :=
                hResidual.sub hCounts (by omega) (by omega)
              have hSum : Counts (start.add weight) (first + n) := hStart.add hCounts (by omega)
              have hGoal : first + n + (draw - n) = first + draw := by omega
              have hScan := ih hRest hLeft hSum (by omega) (hGoal ▸ hSmall) (hGoal ▸ hTarget)
              rw [hGoal] at hScan
              rw [if_neg hOver]
              exact hScan

theorem selectWeighted_eq_none_iff
    (hItems : ∀ weight ∈ items.map Prod.snd, weight ≠ .nan → Amount weight) {draw : Nat}
    (hDraw : 1 ≤ draw) (hSmall : draw < wholeLimit) :
    selectWeighted items draw = none ↔
      (Binary64.sum (untilNan (items.map Prod.snd))).less (Binary64.ofNat draw) = true := by
  have hScan := weightedScan_eq_none_iff hItems (Binary64.ofNat_counts hSmall) .negativeZero hDraw
    (by rwa [Nat.zero_add])
  rwa [Nat.zero_add] at hScan

end Scan

/-- The weights in front of the first NaN, and so those that a draw can get to, sum up to the
range. -/
def FillsRange (weights : List Binary64) : Prop :=
  (Binary64.sum (untilNan weights)).less (Binary64.ofNat selectionRange) = false

theorem fillsRange_iff_of_notMem_nan {weights : List Binary64} (h : .nan ∉ weights) :
    FillsRange weights ↔
      (Binary64.sum weights).less (Binary64.ofNat selectionRange) = false := by
  have hAll : untilNan weights = weights := by
    refine List.takeWhile_eq_self_iff.mpr fun weight hWeight => ?_
    simpa using fun hEq : weight = .nan => h (hEq ▸ hWeight)
  rw [FillsRange, hAll]

theorem sum_not_less_of_fillsRange {weights : List Binary64} (h : FillsRange weights) :
    (Binary64.sum weights).less (Binary64.ofNat selectionRange) = false := by
  by_cases hNan : .nan ∈ weights
  · rw [Binary64.sum_of_mem_nan hNan]
    rfl
  · exact (fillsRange_iff_of_notMem_nan hNan).mp h

/-- Every draw selects something exactly if the last one does. -/
theorem all_selected_iff {α : Type} {items : List (α × Binary64)}
    (hItems : ∀ weight ∈ items.map Prod.snd, weight ≠ .nan → Amount weight) :
    (∀ draw, IsDraw draw → selectWeighted items draw ≠ none) ↔ FillsRange (items.map Prod.snd) := by
  have hRange : selectionRange < wholeLimit := by decide
  constructor
  · intro hSelected
    have hLast := hSelected selectionRange ⟨by decide, Nat.le_refl _⟩
    rw [ne_eq, selectWeighted_eq_none_iff hItems (by decide) hRange, Bool.not_eq_true] at hLast
    exact hLast
  · intro hFills draw hDraw hNone
    have hSmall : draw < wholeLimit := Nat.lt_of_le_of_lt hDraw.2 hRange
    have hLess := (selectWeighted_eq_none_iff hItems hDraw.1 hSmall).mp hNone
    have hShort := Binary64.less_ofNat_mono hDraw.2 hRange hLess
    rw [hFills] at hShort
    cases hShort

namespace ProfileTable

/-- Weights are whole numbers, infinities or NaN. -/
def Regular (table : ProfileTable) : Prop :=
  ∀ profile ∈ table, profile.weight.Regular ∧ ∀ entry ∈ profile.operations, entry.2.Regular

/-- No weight is negative. A negative zero and NaN are not. -/
def Unsigned (table : ProfileTable) : Prop :=
  ∀ profile ∈ table, profile.weight.isNegative = false ∧
    ∀ entry ∈ profile.operations, entry.2.isNegative = false

/-- What validation is for: no weight is negative, every draw selects a profile, and in each
profile every draw selects an operation. -/
structure Covers (table : ProfileTable) : Prop where
  unsigned : table.Unsigned
  profiles : ∀ draw, IsDraw draw → table.select draw ≠ none
  operations : ∀ profile ∈ table, ∀ draw, IsDraw draw → profile.selectOperation draw ≠ none

/-- No draw gets to a NaN, neither among the profiles nor among the operations of one. -/
structure Filled (table : ProfileTable) : Prop where
  profiles : FillsRange (table.map Profile.weight)
  operations : ∀ profile ∈ table, FillsRange (profile.operations.map Prod.snd)

variable {table : ProfileTable}

theorem unsigned_of_validate (h : table.validate = .ok ()) : table.Unsigned := by
  intro profile hProfile
  have hValid := (validate_eq_ok_iff.mp h).2.1 profile hProfile
  obtain ⟨hWeight, hOperations, _⟩ := Profile.validate_eq_ok_iff.mp hValid
  exact ⟨hWeight, hOperations⟩

/-- Without negative weights only NaN can stand between a draw and what it selects. -/
theorem covers_iff_filled (hRegular : table.Regular) (hUnsigned : table.Unsigned) :
    table.Covers ↔ table.Filled := by
  have hWeights : (table.map fun p => (p, p.weight)).map Prod.snd = table.map Profile.weight := by
    rw [List.map_map]
    rfl
  have hProfiles : (∀ draw, IsDraw draw → table.select draw ≠ none) ↔
      FillsRange (table.map Profile.weight) := by
    rw [← hWeights]
    refine all_selected_iff ?_
    rw [hWeights, List.forall_mem_map]
    intro profile hProfile
    exact (hRegular profile hProfile).1.amount (hUnsigned profile hProfile).1
  have hOperations (profile : Profile) (hProfile : profile ∈ table) :
      (∀ draw, IsDraw draw → profile.selectOperation draw ≠ none) ↔
        FillsRange (profile.operations.map Prod.snd) := by
    refine all_selected_iff ?_
    rw [List.forall_mem_map]
    intro entry hEntry
    exact ((hRegular profile hProfile).2 entry hEntry).amount
      ((hUnsigned profile hProfile).2 entry hEntry)
  constructor
  · intro h
    exact ⟨hProfiles.mp h.profiles, fun profile hProfile =>
      (hOperations profile hProfile).mp (h.operations profile hProfile)⟩
  · intro h
    exact ⟨hUnsigned, hProfiles.mpr h.profiles, fun profile hProfile =>
      (hOperations profile hProfile).mpr (h.operations profile hProfile)⟩

theorem validate_of_filled (hUnsigned : table.Unsigned) (h : table.Filled) :
    table.validate = .ok () := by
  refine validate_eq_ok_iff.mpr ⟨?_, ?_, sum_not_less_of_fillsRange h.profiles⟩
  · rintro rfl
    have hNone : ¬ FillsRange [] := by
      rw [FillsRange]
      decide +kernel
    exact hNone h.profiles
  · intro profile hProfile
    obtain ⟨hWeight, hOperations⟩ := hUnsigned profile hProfile
    exact Profile.validate_eq_ok_iff.mpr
      ⟨hWeight, hOperations, sum_not_less_of_fillsRange (h.operations profile hProfile)⟩

/-- Where all weights are numbers, validation is a correct check. -/
theorem validate_eq_ok_iff_covers (hRegular : table.Regular)
    (hNumbers : .nan ∉ table.map Profile.weight)
    (hOperations : ∀ profile ∈ table, .nan ∉ profile.operations.map Prod.snd) :
    table.validate = .ok () ↔ table.Covers := by
  constructor
  · intro h
    obtain ⟨_, hProfiles, hTotal⟩ := validate_eq_ok_iff.mp h
    refine (covers_iff_filled hRegular (unsigned_of_validate h)).mpr
      ⟨(fillsRange_iff_of_notMem_nan hNumbers).mpr hTotal, fun profile hProfile => ?_⟩
    have hValid := Profile.validate_eq_ok_iff.mp (hProfiles profile hProfile)
    exact (fillsRange_iff_of_notMem_nan (hOperations profile hProfile)).mpr hValid.2.2
  · intro h
    exact validate_of_filled h.unsigned ((covers_iff_filled hRegular h.unsigned).mp h)

/-- A table that covers all draws is valid. A valid table has no negative weight, and it covers all
draws exactly if in each of its lists the weights in front of the first NaN sum up to the range. So
validation is right about all tables without NaN. -/
theorem valid_covers_iff (table : ProfileTable) (hRegular : table.Regular) :
    (table.Covers → table.validate = .ok ()) ∧
      (table.validate = .ok () → table.Unsigned ∧ (table.Covers ↔ table.Filled)) ∧
      (.nan ∉ table.map Profile.weight →
        (∀ profile ∈ table, .nan ∉ profile.operations.map Prod.snd) →
          (table.validate = .ok () ↔ table.Covers)) := by
  refine ⟨?_, ?_, validate_eq_ok_iff_covers hRegular⟩
  · intro h
    exact validate_of_filled h.unsigned ((covers_iff_filled hRegular h.unsigned).mp h)
  · intro h
    have hUnsigned := unsigned_of_validate h
    exact ⟨hUnsigned, covers_iff_filled hRegular hUnsigned⟩

/-- An infinite weight takes all draws that get to it, and what stands behind a full list is never
asked for: neither NaN of the first table matters, and the second has none. -/
theorem valid_covers_iff_hidden :
    let percent (n : Nat) : Binary64 := .finite false (n * Binary64.one)
    let table : ProfileTable :=
      [⟨"open", .infinite false, [(.get, percent 30), (.put, .infinite false), (.get, .nan)], 0, 0⟩,
       ⟨"unknown", .nan, [(.put, percent 100)], 0, 0⟩]
    let numbers : ProfileTable :=
      [⟨"few", percent 30, [(.get, percent 99), (.put, percent 1)], 0, 0⟩,
       ⟨"open", .infinite false, [(.put, percent 101)], 0, 0⟩]
    (table.Regular ∧ table.validate = .ok () ∧ table.Filled ∧ table.Covers) ∧
      numbers.Regular ∧ numbers.validate = .ok () ∧ numbers.Covers := by
  intro percent table numbers
  have hPercent (n : Nat) : (percent n).Regular := .inl ⟨false, n, rfl⟩
  have hInfinite : (Binary64.infinite false).Regular := .inr (.inl ⟨false, rfl⟩)
  have hNan : Binary64.nan.Regular := .inr (.inr rfl)
  have hTable : table.Regular := by
    simp only [table, Regular, List.forall_mem_cons, hPercent, hInfinite, hNan]
    simp
  have hNumbers : numbers.Regular := by
    simp only [numbers, Regular, List.forall_mem_cons, hPercent, hInfinite]
    simp
  have hTableValid : table.validate = .ok () := by decide +kernel
  have hNumbersValid : numbers.validate = .ok () := by decide +kernel
  have hFills : table.Filled := by
    constructor
    · rw [FillsRange]
      decide +kernel
    · unfold FillsRange
      decide +kernel
  have hExact := (valid_covers_iff numbers hNumbers).2.2 (by decide +kernel) (by decide +kernel)
  exact ⟨⟨hTable, hTableValid, hFills,
    ((valid_covers_iff table hTable).2.1 hTableValid).2.mpr hFills⟩,
    hNumbers, hNumbersValid, hExact.mp hNumbersValid⟩

/-- A single NaN weight is not below any range, and no draw finds its profile. -/
theorem valid_uncovered :
    let table : ProfileTable :=
      [⟨"p", .nan, [(.get, .finite false (100 * Binary64.one))], 0, 0⟩]
    table.Regular ∧ table.validate = .ok () ∧ (∀ draw, table.select draw = none) ∧
      ¬ table.Covers := by
  intro table
  have hNone : ∀ draw, table.select draw = none := by
    intro draw
    simp only [table, select, selectWeighted, List.map_cons, List.map_nil, weightedScan,
      Binary64.atMost_nan, Bool.false_eq_true, if_false]
  refine ⟨?_, by decide +kernel, hNone, ?_⟩
  · simp only [table, Regular, List.forall_mem_singleton]
    exact ⟨.inr (.inr rfl), .inl ⟨false, 100, rfl⟩⟩
  · intro h
    exact h.profiles 1 ⟨by decide, by decide⟩ (hNone 1)

end ProfileTable

end StoreBench
