import Mathlib.Algebra.Order.Ring.Nat
import StoreBench.Collect
import StoreBench.Random.Draw

/-! The range of a draw. A word times the number of choices, cut to its high half, stays below that
number, whichever word was accepted in the end. -/
namespace StoreBench.Draw

variable {α β : Type}

/-- Whatever the stream, what is drawn from it has the property. -/
def Within (draw : Draw α) (property : α → Prop) : Prop := ∀ stream, property (draw.run stream).1

namespace Within

variable {draw : Draw α} {property : α → Prop}

theorem map {next : α → β} {reached : β → Prop} (h : Within draw property)
    (hNext : ∀ value, property value → reached (next value)) :
    Within (do return next (← draw)) reached :=
  fun stream => hNext _ (h stream)

theorem pure {value : α} (h : property value) : Within (pure value) property := fun _ => h

theorem bind {next : α → Draw β} {reached : β → Prop} (h : Within draw property)
    (hNext : ∀ value, property value → Within (next value) reached) :
    Within (draw >>= next) reached :=
  fun stream => hNext _ (h stream) (draw.run stream).2

/-- What every step draws, all of them draw. -/
theorem collect {step : Nat → Draw α} (h : ∀ place, Within (step place) property) (count : Nat) :
    Within (collect step count) fun results =>
      results.length = count ∧ ∀ result ∈ results, property result := by
  induction count with
  | zero => exact Within.pure ⟨rfl, by simp⟩
  | succ count ih =>
      rw [collect_succ]
      refine ih.bind fun before hBefore => (h count).map fun last hLast => ?_
      simpa [or_imp, forall_and, hBefore.1, hLast] using hBefore.2

/-- Words that are refused are replaced by words of the same kind. -/
theorem accepted {word : Draw Nat} {property : Nat → Prop} (h : Within word property)
    (accepts : Nat → Bool) (refusals : Nat) :
    Within (accepted word accepts refusals) property := by
  induction refusals with
  | zero => exact h
  | succ refusals ih =>
      intro stream
      change property ((if accepts (word.run stream).1 then _ else _ : Draw Nat).run _).1
      split
      · exact h stream
      · exact ih _

end Within

theorem word32_within : Within word32 fun w => w < halfWordMax + 1 :=
  fun stream => stream.next32.1.toNat_lt

theorem word64_within : Within word64 fun w => w < wordMax + 1 :=
  fun stream => stream.next64.1.toNat_lt

/-- The high half of a product. -/
theorem high_lt {words w count : Nat} (hWord : w < words) (hCount : 0 < count) :
    w * count / words < count := by
  apply (Nat.div_lt_iff_lt_mul (by omega)).mpr
  rw [Nat.mul_comm count words]
  exact Nat.mul_lt_mul_of_pos_right hWord hCount

theorem below_within {words count : Nat} {word : Draw Nat} (hWord : Within word fun w => w < words)
    (hCount : 0 < count) : Within (below words word count) fun n => n < count :=
  (hWord.accepted _ patience).map fun _ hLess => high_lt hLess hCount

theorem position_within {count : Nat} (h : 0 < count) :
    Within (position count) fun n => n < count :=
  below_within word64_within h

theorem oneTo_within {range : Nat} (h : 0 < range) :
    Within (oneTo range) fun n => 1 ≤ n ∧ n ≤ range :=
  (below_within word32_within h).map fun n hLess => by omega

theorem between_within {low high : Nat} (h : low ≤ high) :
    Within (between low high) fun n => low ≤ n ∧ n ≤ high := by
  refine (word64_within.accepted _ patience).map ?_
  intro w hWord
  have hHigh : w * (high - low + 1) / (wordMax + 1) < high - low + 1 := high_lt hWord (by omega)
  generalize w * (high - low + 1) / (wordMax + 1) = choice at hHigh ⊢
  omega

theorem length_run_collect (step : Nat → Draw α) (count : Nat) (stream : WordStream) :
    ((collect step count).run stream).1.length = count := by
  have hNothing (place : Nat) : Within (step place) fun _ => True := fun _ => trivial
  exact (Within.collect hNothing count stream).1

/-- A run that is asked for fewer results draws the first of them. -/
theorem run_collect_take (step : Nat → Draw α) {fewer count : Nat} (h : fewer ≤ count)
    (stream : WordStream) :
    ((collect step fewer).run stream).1 = ((collect step count).run stream).1.take fewer := by
  obtain ⟨more, rfl⟩ := Nat.exists_eq_add_of_le h
  rw [collect_add]
  exact (List.take_left' (length_run_collect step fewer stream)).symm

end StoreBench.Draw
