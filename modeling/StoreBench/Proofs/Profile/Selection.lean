import StoreBench.Proofs.Binary64
import StoreBench.Proofs.Outcome

/-! Selection by whole weights. The scan of a draw then takes natural numbers off a natural number,
and it gets to the end of the list only if the draw is beyond the sum of the weights, which a table
that was validated does not allow. -/
namespace StoreBench

open Binary64 (Counts wholeLimit)

variable {α : Type}

section Scan

/-- The scan of natural numbers. -/
def pick (draw : Nat) : List (α × Nat) → Option α
  | [] => none
  | (item, count) :: rest => if draw ≤ count then some item else pick (draw - count) rest

theorem pick_eq_none_iff {draw : Nat} (hDraw : 1 ≤ draw) (items : List (α × Nat)) :
    pick draw items = none ↔ (items.map Prod.snd).sum < draw := by
  induction items generalizing draw with
  | nil => simp [pick]; omega
  | cons entry rest ih =>
      obtain ⟨item, count⟩ := entry
      rw [pick, List.map_cons, List.sum_cons]
      by_cases hFits : draw ≤ count
      · simp only [hFits, if_true, reduceCtorEq, false_iff]
        omega
      · rw [if_neg hFits, ih (by omega)]
        omega

/-- What is picked is an item that counts. -/
theorem mem_of_pick {draw : Nat} (hDraw : 1 ≤ draw) {items : List (α × Nat)} {item : α}
    (h : pick draw items = some item) : ∃ count, (item, count) ∈ items ∧ 0 < count := by
  induction items generalizing draw with
  | nil => cases h
  | cons entry rest ih =>
      obtain ⟨first, count⟩ := entry
      rw [pick] at h
      by_cases hFits : draw ≤ count
      · rw [if_pos hFits] at h
        cases h
        exact ⟨count, List.mem_cons_self, by omega⟩
      · rw [if_neg hFits] at h
        obtain ⟨others, hMem, hPositive⟩ := ih (by omega) h
        exact ⟨others, List.mem_cons_of_mem _ hMem, hPositive⟩

/-- The same items with their weights as natural numbers. -/
def Counted : List (α × Binary64) → List (α × Nat) → Prop :=
  List.Forall₂ fun weighted counted => weighted.1 = counted.1 ∧ Counts weighted.2 counted.2

variable {items : List (α × Binary64)} {counted : List (α × Nat)}

theorem exists_counted (h : ∀ entry ∈ items, ∃ n, Counts entry.2 n) :
    ∃ counted, Counted items counted := by
  induction items with
  | nil => exact ⟨[], .nil⟩
  | cons entry rest ih =>
      obtain ⟨⟨n, hEntry⟩, hRest⟩ := List.forall_mem_cons.mp h
      obtain ⟨counted, hCounted⟩ := ih hRest
      exact ⟨(entry.1, n) :: counted, .cons ⟨rfl, hEntry⟩ hCounted⟩

theorem Counted.counts (h : Counted items counted) :
    List.Forall₂ Counts (items.map Prod.snd) (counted.map Prod.snd) := by
  rw [List.forall₂_map_left_iff, List.forall₂_map_right_iff]
  exact h.imp fun _ _ hEntry => hEntry.2

theorem Counted.exists_weight (h : Counted items counted) {item : α} {count : Nat}
    (hMem : (item, count) ∈ counted) : ∃ weight, (item, weight) ∈ items ∧ Counts weight count := by
  induction h with
  | nil => cases hMem
  | @cons entry _ items counted hEntry _ ih =>
      rcases List.mem_cons.mp hMem with rfl | hMem
      · obtain ⟨rfl, hCounts⟩ := hEntry
        exact ⟨entry.2, List.mem_cons_self, hCounts⟩
      · obtain ⟨weight, hFound, hCounts⟩ := ih hMem
        exact ⟨weight, List.mem_cons_of_mem _ hFound, hCounts⟩

/-- What is left of a draw stays a whole number, so no step of the scan rounds. -/
theorem weightedScan_eq_pick (h : Counted items counted) {residual : Binary64} {draw : Nat}
    (hResidual : Counts residual draw) (hSmall : draw < wholeLimit) :
    weightedScan residual items = pick draw counted := by
  induction h generalizing residual draw with
  | nil => rfl
  | @cons entry count items counted hEntry _ ih =>
      obtain ⟨hItem, hCounts⟩ := hEntry
      have hFits := hResidual.atMost_iff hCounts
      by_cases hLess : draw ≤ count.2
      · simp only [weightedScan, pick, hFits.mpr hLess, hLess, if_true, hItem]
      · have hOver : residual.atMost entry.2 = false :=
          Bool.eq_false_iff.mpr fun hAtMost => hLess (hFits.mp hAtMost)
        have hRest := hResidual.sub hCounts (by omega) hSmall
        simp only [weightedScan, pick, hOver, hLess, if_false, Bool.false_eq_true]
        exact ih hRest (by omega)

end Scan

/-- A weight above zero. -/
def Binary64.IsPositive (weight : Binary64) : Prop :=
  (Binary64.finite false 0).less weight = true

instance (weight : Binary64) : Decidable weight.IsPositive :=
  inferInstanceAs (Decidable ((Binary64.finite false 0).less weight = true))

theorem Binary64.Counts.isPositive {weight : Binary64} {n : Nat} (h : Counts weight n)
    (hPositive : 0 < n) : weight.IsPositive := by
  have hZero : Counts (.finite false 0) 0 := by simpa using Counts.whole 0
  exact (hZero.less_iff h).mpr hPositive

/-- Weights that sum up to the range leave no draw without an item. -/
theorem exists_selected {items : List (α × Binary64)} (hWeights : ∀ entry ∈ items,
    ∃ n, Counts entry.2 n) {range draw : Nat} (hRange : range < wholeLimit)
    (hTotal : (Binary64.sum (items.map Prod.snd)).less (Binary64.ofNat range) = false)
    (hDraw : 1 ≤ draw ∧ draw ≤ range) :
    ∃ item weight, selectWeighted items draw = some item ∧ (item, weight) ∈ items ∧
      weight.IsPositive := by
  obtain ⟨counted, hCounted⟩ := exists_counted hWeights
  have hScan : selectWeighted items draw = pick draw counted :=
    weightedScan_eq_pick hCounted (Binary64.ofNat_counts (by omega)) (by omega)
  cases hPicked : pick draw counted with
  | none =>
      have hShort := (pick_eq_none_iff hDraw.1 counted).mp hPicked
      have hSum := Binary64.sum_counts hCounted.counts (by omega)
      have hLess := (hSum.less_iff (Binary64.ofNat_counts hRange)).mpr (by omega)
      rw [hTotal] at hLess
      cases hLess
  | some item =>
      obtain ⟨count, hMem, hPositive⟩ := mem_of_pick hDraw.1 hPicked
      obtain ⟨weight, hFound, hCounts⟩ := hCounted.exists_weight hMem
      exact ⟨item, weight, hScan.trans hPicked, hFound, hCounts.isPositive hPositive⟩

section Tables

/-- The draws that select profiles and operations. -/
def IsDraw (draw : Nat) : Prop := 1 ≤ draw ∧ draw ≤ selectionRange

/-- All weights are whole numbers. -/
def Profile.Whole (profile : Profile) : Prop :=
  profile.weight.IsWhole ∧ ∀ entry ∈ profile.operations, entry.2.IsWhole

def ProfileTable.Whole (table : ProfileTable) : Prop := ∀ profile ∈ table, Profile.Whole profile

variable {profile : Profile} {table : ProfileTable} {draw : Nat}

theorem Profile.validate_eq_ok_iff :
    profile.validate = .ok () ↔
      profile.weight.isNegative = false ∧
        (∀ entry ∈ profile.operations, entry.2.isNegative = false) ∧
          profile.operationTotal.less (Binary64.ofNat selectionRange) = false := by
  rw [validate, ← and_assoc]
  by_cases hNegative : profile.weight.isNegative || profile.operations.any (·.2.isNegative)
  · rw [if_pos hNegative]
    refine iff_of_false (fun h => nomatch h) ?_
    rintro ⟨⟨hWeight, hOperations⟩, _⟩
    rw [hWeight, Bool.false_or, List.any_eq_true] at hNegative
    obtain ⟨entry, hEntry, hSign⟩ := hNegative
    rw [hOperations entry hEntry] at hSign
    cases hSign
  · rw [if_neg hNegative]
    rw [Bool.or_eq_true, not_or, Bool.not_eq_true, Bool.not_eq_true, List.any_eq_false]
      at hNegative
    rw [and_iff_right ⟨hNegative.1, fun entry hEntry => by simpa using hNegative.2 entry hEntry⟩]
    split <;> simp_all

theorem ProfileTable.validate_eq_ok_iff :
    table.validate = .ok () ↔
      table ≠ [] ∧ (∀ profile ∈ table, Profile.validate profile = .ok ()) ∧
        table.total.less (Binary64.ofNat selectionRange) = false := by
  rw [← forM_eq_ok_iff]
  unfold validate
  by_cases hEmpty : table = []
  · subst hEmpty
    exact iff_of_false (fun h => nomatch h) (fun h => h.1 rfl)
  · rw [if_neg (by simpa using hEmpty), and_iff_right hEmpty]
    constructor
    · intro h
      obtain ⟨_, hProfiles, hTotal⟩ := exists_of_bind_eq_ok h
      refine ⟨hProfiles, Bool.eq_false_iff.mpr ?_⟩
      intro hLess
      rw [if_pos hLess] at hTotal
      cases hTotal
    · rintro ⟨hProfiles, hTotal⟩
      change (table.forM Profile.validate >>= _) = _
      rw [hProfiles]
      exact if_neg (by simpa using hTotal)

/-- In a valid profile every draw finds an operation, and never one of weight zero. -/
theorem Profile.exists_selectOperation (hWhole : profile.Whole)
    (hValid : profile.validate = .ok ()) (hDraw : IsDraw draw) :
    ∃ operation weight, profile.selectOperation draw = some operation ∧
      (operation, weight) ∈ profile.operations ∧ weight.IsPositive := by
  obtain ⟨_, hSigns, hTotal⟩ := Profile.validate_eq_ok_iff.mp hValid
  refine exists_selected ?_ (by decide) hTotal hDraw
  intro entry hEntry
  exact (hWhole.2 entry hEntry).exists_counts (hSigns entry hEntry)

/-- In a valid table every draw finds a profile, and never one of weight zero. -/
theorem ProfileTable.exists_select (hWhole : table.Whole) (hValid : table.validate = .ok ())
    (hDraw : IsDraw draw) :
    ∃ profile ∈ table, table.select draw = some profile ∧ profile.weight.IsPositive := by
  obtain ⟨_, hProfiles, hTotal⟩ := ProfileTable.validate_eq_ok_iff.mp hValid
  have hWeights : ∀ entry ∈ table.map fun p => (p, p.weight), ∃ n, Counts entry.2 n := by
    rw [List.forall_mem_map]
    intro profile hProfile
    have hSign := (Profile.validate_eq_ok_iff.mp (hProfiles profile hProfile)).1
    exact (hWhole profile hProfile).1.exists_counts hSign
  have hSum : (Binary64.sum ((table.map fun p => (p, p.weight)).map Prod.snd)).less
      (Binary64.ofNat selectionRange) = false := by
    rw [List.map_map]
    exact hTotal
  obtain ⟨profile, weight, hSelected, hMem, hPositive⟩ :=
    exists_selected hWeights (by decide) hSum hDraw
  obtain ⟨_, hProfile, hEntry⟩ := List.mem_map.mp hMem
  cases hEntry
  exact ⟨profile, hProfile, hSelected, hPositive⟩

end Tables

end StoreBench
