import Mathlib.Algebra.BigOperators.Group.List.Basic
import Mathlib.Algebra.Ring.Nat
import StoreBench.Counters
import StoreBench.Proofs.Sums

/-! Tallies as numbers that are added up. A sum that is checked after every term fails exactly if
the whole sum has a tally that no word holds, so the order of the additions does not matter. -/
namespace StoreBench

namespace Counters

instance : Zero Counters := ⟨{}⟩

theorem zero_def : (0 : Counters) = {} := rfl

theorem add_def (a b : Counters) : a + b = plus a b := rfl

instance : AddCommMonoid Counters where
  add_assoc a b c := by
    simp only [add_def, plus, Nat.add_assoc]
  zero_add a := by
    simp only [add_def, zero_def, plus, Nat.zero_add]
  add_zero a := rfl
  add_comm a b := by
    simp only [add_def, plus, Nat.add_comm]
  nsmul := nsmulRec

/-- A tally of a sum is the sum of that tally. -/
theorem tally_sum {tally : Counters → Nat} (hZero : tally 0 = 0)
    (hAdd : ∀ a b, tally (a + b) = tally a + tally b) (list : List Counters) :
    tally list.sum = (list.map tally).sum := by
  induction list with
  | nil => exact hZero
  | cons first rest ih => rw [List.sum_cons, hAdd, ih, List.map_cons, List.sum_cons]

theorem assigned_sum (list : List Counters) :
    list.sum.assigned = (list.map Counters.assigned).sum :=
  tally_sum rfl (fun _ _ => rfl) list

/-- A part of a sum of words is a sum of words. -/
theorem fits_left {a b : Counters} (h : (a + b).fits = true) : a.fits = true := by
  simp only [fits, named, add_def, plus, List.all_cons, List.all_nil, Bool.and_true,
    Bool.and_eq_true, decide_eq_true_eq] at h ⊢
  omega

theorem add_eq_ok {a b : Counters} (h : (a + b).fits = true) : a.add b = .ok (a + b) := by
  simp only [add, h, if_true]

theorem add_eq_error {a b : Counters} (h : (a + b).fits = false) : a.add b = .error .overflow := by
  simp only [add, h, Bool.false_eq_true, if_false]

theorem add_ok_iff {a b total : Counters} :
    a.add b = .ok total ↔ (a + b).fits = true ∧ total = a + b := by
  cases h : (a + b).fits with
  | true => rw [add_eq_ok h, Except.ok.injEq, eq_comm, and_iff_right rfl]
  | false => simp [add_eq_error h]

/-- Two checked additions come to one. -/
theorem add_bind_add (a b c : Counters) : (a.add b >>= fun sum => sum.add c) = a.add (b + c) :=
  checkedAdd_bind (fun c : Counters => c.fits) (fun _ _ => fits_left) a b c

/-- A list is summed up term by term, and that comes to one checked addition of its sum. -/
theorem sum_eq (list : List Counters) : sum list = (0 : Counters).add list.sum :=
  foldlM_checkedAdd (fun c : Counters => c.fits) (fun _ _ => fits_left) (by decide) list

end Counters

end StoreBench
