import Mathlib.Algebra.BigOperators.Group.List.Basic
import Mathlib.Algebra.Ring.Nat

/-! Parts that stand one after the other. Each position below their sum lies in exactly one of
them. -/
namespace StoreBench

/-- What the first `count` parts come to, and so where the next one starts. -/
def upTo (sizes : List Nat) (count : Nat) : Nat := (sizes.take count).sum

/-- The position lies in the part at this place. -/
def Spans (sizes : List Nat) (place position : Nat) : Prop :=
  upTo sizes place ≤ position ∧ position < upTo sizes (place + 1)

variable {sizes : List Nat} {place other position : Nat}

theorem upTo_zero (sizes : List Nat) : upTo sizes 0 = 0 := rfl

theorem upTo_cons_succ (size : Nat) (sizes : List Nat) (count : Nat) :
    upTo (size :: sizes) (count + 1) = size + upTo sizes count := by
  rw [upTo, List.take_succ_cons, List.sum_cons, upTo]

theorem upTo_succ (h : place < sizes.length) :
    upTo sizes (place + 1) = upTo sizes place + sizes[place] := by
  rw [upTo, List.take_succ_eq_append_getElem h, List.sum_append, List.sum_singleton, upTo]

theorem upTo_of_length_le {count : Nat} (h : sizes.length ≤ count) :
    upTo sizes count = sizes.sum := by
  rw [upTo, List.take_of_length_le h]

theorem upTo_length (sizes : List Nat) : upTo sizes sizes.length = sizes.sum :=
  upTo_of_length_le (Nat.le_refl _)

theorem upTo_mono (sizes : List Nat) {count more : Nat} (h : count ≤ more) :
    upTo sizes count ≤ upTo sizes more := by
  obtain ⟨rest, rfl⟩ := Nat.exists_eq_add_of_le h
  rw [upTo, upTo, List.take_add, List.sum_append]
  exact Nat.le_add_right _ _

theorem upTo_le_sum (sizes : List Nat) (count : Nat) : upTo sizes count ≤ sizes.sum := by
  rw [← upTo_of_length_le (Nat.le_max_left sizes.length count)]
  exact upTo_mono sizes (Nat.le_max_right sizes.length count)

namespace Spans

theorem lt_length (h : Spans sizes place position) : place < sizes.length := by
  by_contra hEnd
  have hStart := upTo_of_length_le (Nat.le_of_not_lt hEnd)
  have hStop := upTo_le_sum sizes (place + 1)
  have hLess := Nat.lt_of_le_of_lt h.1 h.2
  omega

/-- A later position lies in no earlier part. -/
theorem le_of_le {later : Nat} (h : Spans sizes place position) (hLater : Spans sizes other later)
    (hLess : position ≤ later) : place ≤ other := by
  by_contra hBefore
  have hEnd : upTo sizes (other + 1) ≤ upTo sizes place := upTo_mono sizes (by omega)
  have hStart := h.1
  have hStop := hLater.2
  omega

/-- No position lies in two parts. -/
theorem unique (h : Spans sizes place position) (hOther : Spans sizes other position) :
    place = other :=
  Nat.le_antisymm (h.le_of_le hOther (Nat.le_refl _)) (hOther.le_of_le h (Nat.le_refl _))

end Spans

/-- The parts leave no gap. -/
theorem exists_spans (h : position < sizes.sum) : ∃ place, Spans sizes place position := by
  induction sizes generalizing position with
  | nil => exact absurd h (Nat.not_lt_zero position)
  | cons size rest ih =>
      rw [List.sum_cons] at h
      by_cases hFirst : position < size
      · refine ⟨0, Nat.zero_le position, ?_⟩
        rw [upTo_cons_succ]
        exact Nat.lt_add_right _ hFirst
      · have hRest : position - size < rest.sum := by omega
        obtain ⟨place, hStart, hStop⟩ := ih hRest
        refine ⟨place + 1, ?_, ?_⟩
        · rw [upTo_cons_succ]
          omega
        · rw [upTo_cons_succ]
          omega

end StoreBench
