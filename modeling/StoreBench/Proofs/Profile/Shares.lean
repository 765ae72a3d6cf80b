import Mathlib.Order.Interval.Finset.Nat
import StoreBench.Proofs.Intervals
import StoreBench.Proofs.Profile.Selection

/-! What share of the draws a weight gets. Weights that are whole numbers cut the draws into
consecutive intervals, one for each item in the order of the list, and a draw selects the item in
whose interval it lies. -/
namespace StoreBench

open Binary64 (Counts wholeLimit)

variable {α : Type}

section Places

/-- A draw is numbered from one, and a position from zero. -/
theorem spans_iff {sizes : List Nat} {place draw : Nat} (hDraw : 1 ≤ draw) :
    Spans sizes place (draw - 1) ↔
      upTo sizes place < draw ∧ draw ≤ upTo sizes (place + 1) := by
  rw [Spans]
  omega

/-- The scan stops at the item whose interval holds the draw. What it has taken off the draw by then
are the weights in front of the item. -/
theorem pick_of_spans {items : List (α × Nat)} {place draw : Nat} (hDraw : 1 ≤ draw)
    (h : Spans (items.map Prod.snd) place (draw - 1)) :
    pick draw items = (items.map Prod.fst)[place]? := by
  induction items generalizing place draw with
  | nil => rfl
  | cons entry rest ih =>
      obtain ⟨item, count⟩ := entry
      rw [spans_iff hDraw, List.map_cons, upTo_cons_succ] at h
      rw [pick, List.map_cons]
      cases place with
      | zero =>
          rw [upTo_zero, upTo_zero] at h
          rw [if_pos (by omega), List.getElem?_cons_zero]
      | succ place =>
          rw [upTo_cons_succ] at h
          have hOver : count < draw := by omega
          have hRest : 1 ≤ draw - count := Nat.sub_pos_of_lt hOver
          rw [if_neg (Nat.not_le_of_lt hOver), List.getElem?_cons_succ]
          exact ih hRest ((spans_iff hRest).mpr (by omega))

variable {items : List (α × Binary64)} {counts : List Nat}

theorem counted_zip (h : List.Forall₂ Counts (items.map Prod.snd) counts) :
    Counted items ((items.map Prod.fst).zip counts) := by
  induction items generalizing counts with
  | nil =>
      cases h
      exact .nil
  | cons entry rest ih =>
      cases h with
      | cons hCounts hRest => exact .cons ⟨rfl, hCounts⟩ (ih hRest)

/-- A draw that is no larger than a word's half keeps exact what is left of it. -/
theorem selectWeighted_eq_pick (h : List.Forall₂ Counts (items.map Prod.snd) counts) {draw : Nat}
    (hWord : draw ≤ halfWordMax) :
    selectWeighted items draw = pick draw ((items.map Prod.fst).zip counts) := by
  have hSmall : draw < wholeLimit := Nat.lt_of_le_of_lt hWord (by decide)
  exact weightedScan_eq_pick (counted_zip h) (Binary64.ofNat_counts hSmall) hSmall

theorem selectWeighted_of_spans (h : List.Forall₂ Counts (items.map Prod.snd) counts)
    {place draw : Nat} (hDraw : 1 ≤ draw) (hWord : draw ≤ halfWordMax)
    (hSpans : Spans counts place (draw - 1)) :
    selectWeighted items draw = (items.map Prod.fst)[place]? := by
  have hLength : (items.map Prod.fst).length = counts.length := by
    rw [← h.length_eq, List.length_map, List.length_map]
  rw [← List.map_snd_zip (Nat.le_of_eq hLength.symm)] at hSpans
  rw [selectWeighted_eq_pick h hWord, pick_of_spans hDraw hSpans,
    List.map_fst_zip (Nat.le_of_eq hLength)]

theorem selectWeighted_eq_none_iff_lt (h : List.Forall₂ Counts (items.map Prod.snd) counts)
    {draw : Nat} (hDraw : 1 ≤ draw) (hWord : draw ≤ halfWordMax) :
    selectWeighted items draw = none ↔ counts.sum < draw := by
  have hLength : counts.length = (items.map Prod.fst).length := by
    rw [← h.length_eq, List.length_map, List.length_map]
  rw [selectWeighted_eq_pick h hWord, pick_eq_none_iff hDraw,
    List.map_snd_zip (Nat.le_of_eq hLength)]

end Places

/-- The place of the item that a draw selects by these weights. -/
def selectedPlace (weights : List Binary64) (draw : Nat) : Option Nat :=
  selectWeighted (weights.zipIdx.map Prod.swap) draw

section Shares

variable {weights : List Binary64} {counts : List Nat} {place draw : Nat}

theorem weights_numbered (weights : List Binary64) :
    (weights.zipIdx.map Prod.swap).map Prod.snd = weights := by
  rw [List.map_map]
  exact List.zipIdx_map_fst 0 weights

theorem selectedPlace_of_spans (h : List.Forall₂ Counts weights counts) (hDraw : 1 ≤ draw)
    (hWord : draw ≤ halfWordMax) (hSpans : Spans counts place (draw - 1)) :
    selectedPlace weights draw = some place := by
  have hPlace : place < weights.length := by
    rw [h.length_eq]
    exact hSpans.lt_length
  have hPlaces : (weights.zipIdx.map Prod.swap).map Prod.fst = List.range weights.length := by
    rw [List.map_map, List.range_eq_range']
    exact List.zipIdx_map_snd 0 weights
  rw [← weights_numbered weights] at h
  rw [selectedPlace, selectWeighted_of_spans h hDraw hWord hSpans, hPlaces,
    List.getElem?_range hPlace]

theorem selectedPlace_eq_none_iff_lt (h : List.Forall₂ Counts weights counts) (hDraw : 1 ≤ draw)
    (hWord : draw ≤ halfWordMax) : selectedPlace weights draw = none ↔ counts.sum < draw := by
  rw [← weights_numbered weights] at h
  exact selectWeighted_eq_none_iff_lt h hDraw hWord

theorem selectedPlace_eq_some_iff (h : List.Forall₂ Counts weights counts) (hDraw : 1 ≤ draw)
    (hWord : draw ≤ halfWordMax) :
    selectedPlace weights draw = some place ↔
      upTo counts place < draw ∧ draw ≤ upTo counts (place + 1) := by
  rw [← spans_iff hDraw]
  refine ⟨fun hSelected => ?_, selectedPlace_of_spans h hDraw hWord⟩
  have hTotal : draw ≤ counts.sum := by
    by_contra hOver
    rw [(selectedPlace_eq_none_iff_lt h hDraw hWord).mpr (Nat.lt_of_not_le hOver)] at hSelected
    cases hSelected
  obtain ⟨found, hFound⟩ := exists_spans (Nat.sub_one_lt_of_le hDraw hTotal)
  rw [selectedPlace_of_spans h hDraw hWord hFound] at hSelected
  cases hSelected
  exact hFound

/-- The place tells the item. -/
theorem selectWeighted_eq_selectedPlace {items : List (α × Binary64)}
    (h : List.Forall₂ Counts (items.map Prod.snd) counts) (hDraw : 1 ≤ draw)
    (hWord : draw ≤ halfWordMax) :
    selectWeighted items draw =
      (selectedPlace (items.map Prod.snd) draw).bind ((items.map Prod.fst)[·]?) := by
  cases hPlace : selectedPlace (items.map Prod.snd) draw with
  | none =>
      rw [selectedPlace_eq_none_iff_lt h hDraw hWord] at hPlace
      rw [Option.bind_none, selectWeighted_eq_none_iff_lt h hDraw hWord]
      exact hPlace
  | some place =>
      rw [selectedPlace_eq_some_iff h hDraw hWord, ← spans_iff hDraw] at hPlace
      rw [Option.bind_some, selectWeighted_of_spans h hDraw hWord hPlace]

/-- The draws that select an item are those of its interval that are draws at all. -/
theorem draws_eq_Ioc (h : List.Forall₂ Counts weights counts) (place : Nat) :
    (Finset.Icc 1 selectionRange).filter (fun draw => selectedPlace weights draw = some place) =
      Finset.Ioc (min selectionRange (upTo counts place))
        (min selectionRange (upTo counts (place + 1))) := by
  ext draw
  rw [Finset.mem_filter, Finset.mem_Icc, Finset.mem_Ioc]
  constructor
  · rintro ⟨⟨hDraw, hRange⟩, hSelected⟩
    rw [selectedPlace_eq_some_iff h hDraw (hRange.trans (by decide))] at hSelected
    omega
  · intro hBetween
    have hDraw : 1 ≤ draw := by omega
    have hRange : draw ≤ selectionRange := by omega
    refine ⟨⟨hDraw, hRange⟩, ?_⟩
    rw [selectedPlace_eq_some_iff h hDraw (hRange.trans (by decide))]
    omega

end Shares

/-- Whole weights share out the draws. A draw selects the item whose interval it lies in, and no
item if it is beyond the sum of the weights. So each item gets as many draws as its weight if the
weights come to the range, an item of weight zero gets none, and a larger draw never leads to an
earlier item. -/
theorem selection_shares {items : List (α × Binary64)} {counts : List Nat}
    (hCounts : List.Forall₂ Counts (items.map Prod.snd) counts) :
    let selected := selectedPlace (items.map Prod.snd)
    let draws (place : Nat) :=
      (Finset.Icc 1 selectionRange).filter fun draw => selected draw = some place
    (∀ draw, 1 ≤ draw → draw ≤ halfWordMax →
      selectWeighted items draw = (selected draw).bind ((items.map Prod.fst)[·]?) ∧
      (selectWeighted items draw = none ↔ counts.sum < draw) ∧
      ∀ place, selected draw = some place ↔
        upTo counts place < draw ∧ draw ≤ upTo counts (place + 1)) ∧
    (∀ place, (draws place).card =
      min selectionRange (upTo counts (place + 1)) - min selectionRange (upTo counts place)) ∧
    (∀ place draw, 1 ≤ draw → draw ≤ halfWordMax → counts[place]? = some 0 →
      selected draw ≠ some place) ∧
    (∀ draw later place other, 1 ≤ draw → draw ≤ later → later ≤ halfWordMax →
      selected draw = some place → selected later = some other → place ≤ other) ∧
    (counts.sum = selectionRange → ∀ place count, counts[place]? = some count →
      (draws place).card = count) := by
  intro selected draws
  have hCard (place : Nat) : (draws place).card =
      min selectionRange (upTo counts (place + 1)) - min selectionRange (upTo counts place) := by
    rw [show draws place = _ from draws_eq_Ioc hCounts place, Nat.card_Ioc]
  have hNext {place count : Nat} (h : counts[place]? = some count) :
      upTo counts (place + 1) = upTo counts place + count := by
    obtain ⟨hPlace, rfl⟩ := List.getElem?_eq_some_iff.mp h
    exact upTo_succ hPlace
  refine ⟨?_, hCard, ?_, ?_, ?_⟩
  · intro draw hDraw hWord
    exact ⟨selectWeighted_eq_selectedPlace hCounts hDraw hWord,
      selectWeighted_eq_none_iff_lt hCounts hDraw hWord,
      fun place => selectedPlace_eq_some_iff hCounts hDraw hWord⟩
  · intro place draw hDraw hWord hZero hSelected
    rw [selectedPlace_eq_some_iff hCounts hDraw hWord, hNext hZero] at hSelected
    omega
  · intro draw later place other hDraw hLess hWord hPlace hOther
    have hLater := hDraw.trans hLess
    rw [selectedPlace_eq_some_iff hCounts hDraw (hLess.trans hWord), ← spans_iff hDraw] at hPlace
    rw [selectedPlace_eq_some_iff hCounts hLater hWord, ← spans_iff hLater] at hOther
    exact hPlace.le_of_le hOther (Nat.sub_le_sub_right hLess 1)
  · intro hTotal place count hCount
    have hEnd := upTo_le_sum counts (place + 1)
    rw [hCard, hNext hCount]
    rw [hNext hCount] at hEnd
    omega

/-- Of four weights that come to the range, the two in the middle are zeros of either sign. -/
theorem selection_shares_with_zeros :
    let items : List (String × Binary64) :=
      [("read", Binary64.ofNat 30), ("none", Binary64.ofNat 0), ("never", .finite true 0),
        ("write", Binary64.ofNat 70)]
    List.Forall₂ Counts (items.map Prod.snd) [30, 0, 0, 70] ∧
      selectWeighted items 30 = some "read" ∧ selectWeighted items 31 = some "write" ∧
      selectWeighted items 101 = none ∧
      ((Finset.Icc 1 selectionRange).filter fun draw =>
        selectedPlace (items.map Prod.snd) draw = some 3).card = 70 := by
  intro items
  have hWhole {n : Nat} (h : n ≤ 70) : Counts (Binary64.ofNat n) n :=
    Binary64.ofNat_counts (Nat.lt_of_le_of_lt h (by decide))
  have hCounts : List.Forall₂ Counts (items.map Prod.snd) [30, 0, 0, 70] := by
    simp only [items, List.map_cons, List.map_nil, List.forall₂_cons, List.forall₂_nil_left_iff]
    exact ⟨hWhole (by decide), hWhole (by decide), .negativeZero, hWhole (by decide), trivial⟩
  obtain ⟨hSelected, _, _, _, hShares⟩ := selection_shares hCounts
  obtain ⟨hFirst, _, hFirstPlace⟩ := hSelected 30 (by decide) (by decide)
  obtain ⟨hLast, _, hLastPlace⟩ := hSelected 31 (by decide) (by decide)
  refine ⟨hCounts, ?_, ?_, ?_, hShares rfl 3 70 rfl⟩
  · rw [hFirst, (hFirstPlace 0).mpr (by decide)]
    rfl
  · rw [hLast, (hLastPlace 3).mpr (by decide)]
    rfl
  · exact (hSelected 101 (by decide) (by decide)).2.1.mpr (by decide)

end StoreBench
