import Mathlib.Algebra.BigOperators.Group.List.Basic
import StoreBench.Fault

/-! Sums that are checked after every term. If whatever is a part of something that fits does fit as
well, all these checks come to a single one, that of the whole sum. So neither the outcome of such a
sum nor whether it overflows depends on the order of its terms. -/
namespace StoreBench

variable {M : Type} [AddMonoid M] (fits : M → Prop) [DecidablePred fits]

/-- The sum of two terms, if it fits. -/
def checkedAdd (a b : M) : Except Fault M :=
  if fits (a + b) then .ok (a + b) else .error .overflow

variable {fits} in
theorem checkedAdd_of_fits {a b : M} (h : fits (a + b)) : checkedAdd fits a b = .ok (a + b) :=
  if_pos h

variable {fits} in
theorem checkedAdd_of_not_fits {a b : M} (h : ¬ fits (a + b)) :
    checkedAdd fits a b = .error .overflow :=
  if_neg h

/-- Two checked additions come to one. -/
theorem checkedAdd_bind (hPart : ∀ a b, fits (a + b) → fits a) (a b c : M) :
    (checkedAdd fits a b >>= fun sum => checkedAdd fits sum c) = checkedAdd fits a (b + c) := by
  by_cases h : fits (a + b)
  · rw [checkedAdd_of_fits h]
    change checkedAdd fits (a + b) c = _
    rw [checkedAdd, checkedAdd, add_assoc]
  · have hTotal : ¬ fits (a + (b + c)) := by
      rw [← add_assoc]
      exact fun hFits => h (hPart _ _ hFits)
    rw [checkedAdd_of_not_fits h, checkedAdd_of_not_fits hTotal]
    rfl

/-- A list is added up term by term, and that comes to one checked addition of its sum. -/
theorem foldlM_checkedAdd (hPart : ∀ a b, fits (a + b) → fits a) {start : M} (hStart : fits start)
    (list : List M) : list.foldlM (checkedAdd fits) start = checkedAdd fits start list.sum := by
  induction list generalizing start with
  | nil =>
      rw [List.sum_nil, checkedAdd_of_fits (by rwa [add_zero]), add_zero]
      rfl
  | cons first rest ih =>
      rw [List.foldlM_cons, List.sum_cons, ← checkedAdd_bind fits hPart]
      by_cases h : fits (start + first)
      · rw [checkedAdd_of_fits h]
        exact ih h
      · rw [checkedAdd_of_not_fits h]
        rfl

end StoreBench
