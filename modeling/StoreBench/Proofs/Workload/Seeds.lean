import Mathlib.Data.Nat.Bitwise
import StoreBench.Workload.Generation

/-! The seeds of a run. All workers of a run have seeds of their own. The seed of a stream of
lengths, though, can be the seed from which another worker makes its choices: both are a seed
moved by the same step, once by addition and once by exclusive or, and these agree where nothing
is carried. Main statement: when this happens, for all workers and for those of a pool. -/
namespace StoreBench

/-- The seed of the lengths that a generator of this seed draws. -/
def lengthSeed (seed : UInt64) : UInt64 := seed ^^^ seedStep

@[simp] theorem Generator.choices_ofSeed (seed : UInt64) :
    (Generator.ofSeed seed).choices = WordStream.ofSeed seed := rfl

@[simp] theorem Generator.lengths_ofSeed (seed : UInt64) :
    (Generator.ofSeed seed).lengths = WordStream.ofSeed (lengthSeed seed) := rfl

section Steps

/-- The step is odd, so no two counts of it come to the same. -/
theorem mul_seedStep_inj {a b : UInt64} : a * seedStep = b * seedStep ↔ a = b := by
  constructor
  · intro h
    have hInverse : seedStep * 17428512612931826493 = 1 := by decide
    calc a = a * seedStep * 17428512612931826493 := by rw [UInt64.mul_assoc, hInverse, UInt64.mul_one]
      _ = b := by rw [h, UInt64.mul_assoc, hInverse, UInt64.mul_one]
  · intro h
    rw [h]

theorem deriveSeed_eq_add (seed i j : UInt64) :
    deriveSeed seed j = deriveSeed seed i + (j - i) * seedStep := by
  simp only [deriveSeed]
  grind

theorem deriveSeed_inj {seed i j : UInt64} : deriveSeed seed i = deriveSeed seed j ↔ i = j := by
  rw [deriveSeed_eq_add seed i j]
  have hNone : (j - i) * seedStep = 0 ↔ j - i = 0 := by
    simpa using mul_seedStep_inj (a := j - i) (b := 0)
  grind

theorem lengthSeed_eq_comm {a b : UInt64} : lengthSeed a = b ↔ lengthSeed b = a := by
  have hBack (seed : UInt64) : lengthSeed (lengthSeed seed) = seed := by
    rw [lengthSeed, lengthSeed, UInt64.xor_assoc, UInt64.xor_self, UInt64.xor_zero]
  constructor
  · intro h
    rw [← h, hBack]
  · intro h
    rw [← h, hBack]

end Steps

section Carries

/-- A sum is what the bits come to one by one, and what they carry. -/
theorem natAdd_eq_xor_add_and (a b : Nat) : a + b = (a ^^^ b) + 2 * (a &&& b) := by
  induction a using Nat.binaryRec generalizing b with
  | zero => simp
  | bit low a ih =>
      obtain ⟨other, b, rfl⟩ : ∃ other rest, b = Nat.bit other rest :=
        ⟨_, _, (Nat.bit_testBit_zero_shiftRight_one b).symm⟩
      have hRest := ih b
      rw [Nat.xor_bit, Nat.land_bit]
      simp only [Nat.bit_val]
      cases low <;> cases other <;> simp <;> omega

theorem wordAdd_eq_xor_add_and (a b : UInt64) : a + b = (a ^^^ b) + 2 * (a &&& b) := by
  apply UInt64.toNat_inj.mp
  have hSum := natAdd_eq_xor_add_and a.toNat b.toNat
  simp
  omega

/-- Adding the step to the seed carries nothing, other than out of the word. -/
def CarryFree (seed : UInt64) : Prop := 2 * (seed &&& seedStep) = 0

instance (seed : UInt64) : Decidable (CarryFree seed) := inferInstanceAs (Decidable (_ = _))

/-- What addition carries has to make up for the workers between. -/
theorem lengthSeed_eq_iff_carries (seed i j : UInt64) :
    lengthSeed (deriveSeed seed i) = deriveSeed seed j ↔
      2 * (deriveSeed seed i &&& seedStep) = (i - j + 1) * seedStep := by
  have hSum := wordAdd_eq_xor_add_and (deriveSeed seed i) seedStep
  rw [deriveSeed_eq_add seed i j, lengthSeed]
  generalize deriveSeed seed i ^^^ seedStep = apart at *
  generalize deriveSeed seed i &&& seedStep = carried at *
  grind

theorem lengthSeed_eq_next_iff (seed i : UInt64) :
    lengthSeed (deriveSeed seed i) = deriveSeed seed (i + 1) ↔ CarryFree (deriveSeed seed i) := by
  rw [lengthSeed_eq_iff_carries, CarryFree, show i - (i + 1) + 1 = 0 by grind, UInt64.zero_mul]

end Carries

section Sieve

/-- In its lowest bits, that many steps together have no bit that a single step does not have. -/
def Shadowed (bits count : Nat) : Prop :=
  count * seedStep.toNat % 2 ^ bits &&& seedStep.toNat = count * seedStep.toNat % 2 ^ bits

instance (bits count : Nat) : Decidable (Shadowed bits count) :=
  inferInstanceAs (Decidable (_ = _))

theorem Shadowed.lower {fewer bits count : Nat} (h : Shadowed bits count) (hFewer : fewer ≤ bits) :
    Shadowed fewer (count % 2 ^ fewer) := by
  unfold Shadowed at *
  rw [Nat.mod_mul_mod]
  -- Which bits are set below `fewer` does not depend on those above, so both sides are compared
  -- bit by bit.
  apply Nat.eq_of_testBit_eq
  intro place
  have hBit := congrArg (fun n => n.testBit place) h
  simp only [Nat.testBit_and, Nat.testBit_mod_two_pow] at hBit ⊢
  by_cases hLow : place < fewer
  · simpa [hLow, hLow.trans_le hFewer] using hBit
  · simp [hLow]

/-- Tries all counts that end in these bits, `more` bits further, and gives up on an ending as soon
as it is not shadowed. -/
def sieve (passes : Nat → Bool) (bits ending : Nat) : (more : Nat) → Bool
  | 0 => passes ending
  | more + 1 =>
    !decide (Shadowed bits ending) ||
      (sieve passes (bits + 1) ending more && sieve passes (bits + 1) (ending + 2 ^ bits) more)

theorem passes_of_sieve {passes : Nat → Bool} {bits ending more count : Nat}
    (hSieve : sieve passes bits ending more = true) (hEnding : count % 2 ^ bits = ending)
    (hShadowed : Shadowed (bits + more) count) : passes (count % 2 ^ (bits + more)) = true := by
  induction more generalizing bits ending with
  | zero =>
      rw [Nat.add_zero, hEnding]
      exact hSieve
  | succ more ih =>
      have hLow : Shadowed bits ending := hEnding ▸ hShadowed.lower (by omega)
      simp only [sieve, hLow, decide_true, Bool.not_true, Bool.false_or, Bool.and_eq_true] at hSieve
      rw [show bits + (more + 1) = bits + 1 + more by omega] at hShadowed ⊢
      have hSplit := Nat.mod_pow_succ (b := 2) (k := bits) (x := count)
      rcases Nat.mod_two_eq_zero_or_one (count / 2 ^ bits) with hBit | hBit
      · exact ih hSieve.1 (by simp [hSplit, hBit, hEnding]) hShadowed
      · exact ih hSieve.2 (by simp [hSplit, hBit, hEnding]) hShadowed

/-- Of the counts that are small, or small below zero, none is shadowed but zero and one. -/
def fewShadowed (ending : Nat) : Bool :=
  if ending ≤ 2 ^ 23 then decide (ending ≤ 1) || !decide (Shadowed 63 ending)
  else !decide (Shadowed 63 (2 ^ 63 - 2 ^ 24 + ending))

theorem sieve_fewShadowed : sieve fewShadowed 0 0 24 = true := by
  decide +kernel

theorem le_one_of_shadowed {count : Nat} (h : Shadowed 63 count)
    (hSmall : count ≤ 2 ^ 23 ∨ 2 ^ 63 - 2 ^ 23 < count ∧ count < 2 ^ 63) : count ≤ 1 := by
  have hLow : Shadowed 24 count := by
    have hEnd := h.lower (show 24 ≤ 63 by omega)
    simpa [Shadowed, Nat.mod_mul_mod] using hEnd
  have hPassed := passes_of_sieve sieve_fewShadowed (Nat.mod_one count) hLow
  rw [Nat.zero_add, fewShadowed] at hPassed
  rcases hSmall with hSmall | hSmall
  · rw [Nat.mod_eq_of_lt (by omega), if_pos hSmall] at hPassed
    simpa [h] using hPassed
  · rw [if_neg (by omega), show 2 ^ 63 - 2 ^ 24 + count % 2 ^ 24 = count by omega] at hPassed
    simp [h] at hPassed

/-- What the seed carries is a shadowed count of steps. -/
theorem exists_shadowed_of_carries {seed apart : UInt64}
    (h : 2 * (seed &&& seedStep) = apart * seedStep) :
    ∃ count < 2 ^ 63, apart.toNat = 2 * count ∧ Shadowed 63 count := by
  have hWords := congrArg UInt64.toNat h
  simp only [UInt64.toNat_mul, UInt64.toNat_and] at hWords
  change 2 * (seed.toNat &&& seedStep.toNat) % 2 ^ 64 = _ at hWords
  -- The left side is even and the step is odd, so it is the count that is even.
  have hEven : apart.toNat % 2 = 0 := by
    have hOdd : seedStep.toNat % 2 = 1 := by decide
    have hParity := congrArg (· % 2) hWords
    simpa [Nat.mod_mod_of_dvd, Nat.mul_mod, hOdd] using hParity.symm
  obtain ⟨count, hCount⟩ : ∃ count, apart.toNat = 2 * count := ⟨apart.toNat / 2, by omega⟩
  have hApart := apart.toNat_lt
  refine ⟨count, by omega, hCount, ?_⟩
  rw [hCount, Nat.mul_assoc, show 2 ^ 64 = 2 * 2 ^ 63 by decide, Nat.mul_mod_mul_left,
    Nat.mul_mod_mul_left] at hWords
  rw [Shadowed, ← Nat.eq_of_mul_eq_mul_left (by decide) hWords]
  apply Nat.eq_of_testBit_eq
  intro place
  simp only [Nat.testBit_and, Nat.testBit_mod_two_pow]
  cases seedStep.toNat.testBit place <;> simp

end Sieve

/-- Between workers of a pool, only the seeds of neighbours can meet. -/
theorem neighbours_of_lengthSeed_eq {seed i j : UInt64} (hi : i.toNat < 2 ^ 24)
    (hj : j.toNat < 2 ^ 24) (h : lengthSeed (deriveSeed seed i) = deriveSeed seed j) :
    j = i + 1 ∨ i = j + 1 := by
  obtain ⟨count, hCount, hApart, hShadowed⟩ :=
    exists_shadowed_of_carries ((lengthSeed_eq_iff_carries seed i j).mp h)
  rw [UInt64.toNat_add, UInt64.toNat_sub, show (1 : UInt64).toNat = 1 from rfl] at hApart
  have hOne := le_one_of_shadowed hShadowed (by omega)
  have hNext : j.toNat = i.toNat + 1 ∨ i.toNat = j.toNat + 1 := by omega
  simp only [← UInt64.toNat_inj, UInt64.toNat_add, show (1 : UInt64).toNat = 1 from rfl]
  omega

/-- The lengths of one worker come from the seed of another one's choices exactly if what addition
of the step carries, from the first worker's seed on, makes up for the workers between them. In a
pool of up to `2 ^ 24` workers these are neighbours, and nothing is carried at the lower seed. -/
theorem streams_meet_iff (seed i j : UInt64) :
    (lengthSeed (deriveSeed seed i) = deriveSeed seed j ↔
      2 * (deriveSeed seed i &&& seedStep) = (i - j + 1) * seedStep) ∧
    (i.toNat < 2 ^ 24 → j.toNat < 2 ^ 24 →
      (lengthSeed (deriveSeed seed i) = deriveSeed seed j ↔
        j = i + 1 ∧ CarryFree (deriveSeed seed i) ∨ i = j + 1 ∧ CarryFree (deriveSeed seed j))) := by
  refine ⟨lengthSeed_eq_iff_carries seed i j, fun hi hj => ?_⟩
  constructor
  · intro h
    rcases neighbours_of_lengthSeed_eq hi hj h with rfl | rfl
    · exact .inl ⟨rfl, (lengthSeed_eq_next_iff seed i).mp h⟩
    · exact .inr ⟨rfl, (lengthSeed_eq_next_iff seed j).mp (lengthSeed_eq_comm.mp h)⟩
  · rintro (⟨rfl, hFree⟩ | ⟨rfl, hFree⟩)
    · exact (lengthSeed_eq_next_iff seed i).mpr hFree
    · exact lengthSeed_eq_comm.mp ((lengthSeed_eq_next_iff seed j).mpr hFree)

/-- Very far on, a seed can still be met, if enough is carried. Of neighbours the
upper one can draw its lengths from the lower one's seed, too. -/
theorem streams_meet_iff_far :
    lengthSeed (deriveSeed 8056058472933209087 0) = deriveSeed 8056058472933209087 94314105 ∧
      lengthSeed (deriveSeed 5382687378899015553 5) = deriveSeed 5382687378899015553 4 := by
  constructor
  · exact (streams_meet_iff 8056058472933209087 0 94314105).1.mpr (by decide)
  · exact ((streams_meet_iff 5382687378899015553 5 4).2 (by decide) (by decide)).mpr (.inr (by decide))

/-- This run starts a step below zero. Its first worker draws lengths from the very stream that the
second one makes its choices from, and the other way round. -/
theorem neighbours_swap_streams :
    let first := deriveSeed 7046029254386353131 0
    let second := deriveSeed 7046029254386353131 1
    lengthSeed first = second ∧ lengthSeed second = first ∧
      (Generator.ofSeed first).lengths = (Generator.ofSeed second).choices ∧
      (Generator.ofSeed second).lengths = (Generator.ofSeed first).choices := by
  intro first second
  have hFirst : lengthSeed first = second := by decide
  have hSecond : lengthSeed second = first := lengthSeed_eq_comm.mp hFirst
  refine ⟨hFirst, hSecond, ?_, ?_⟩
  · rw [Generator.lengths_ofSeed, Generator.choices_ofSeed, hFirst]
  · rw [Generator.lengths_ofSeed, Generator.choices_ofSeed, hSecond]

end StoreBench
