import StoreBench.Proofs.Random.Draw
import StoreBench.Proofs.Sample.Normalization
import StoreBench.Sample.Generation

/-! Random sample data. All letters come from an alphabet without the two bytes that mean something
in a document, so generated pairs are printed and read again as they are, whatever their sizes. The
letters of a pair follow those of the pair before it, so fewer pairs are the beginning of more. -/
namespace StoreBench

namespace SampleShape

theorem delimiter_notMem_alphabet : delimiter ∉ alphabet := by decide +kernel

theorem newline_notMem_alphabet : newline ∉ alphabet := by decide +kernel

theorem letter_within : letter.Within fun b => b ∈ alphabet := by
  have hSome : 0 < alphabet.size := by decide +kernel
  refine (Draw.position_within hSome).map fun i hLess => ?_
  rw [Array.getD_eq_getD_getElem?, Array.getElem?_eq_getElem hLess, Option.getD_some]
  exact Array.getElem_mem hLess

/-- A pair of the sizes that the shape asks for, all in letters. -/
structure Shaped (shape : SampleShape) (pair : Pair) : Prop where
  key_length : pair.key.length = shape.keySize
  value_length : pair.value.length = shape.valueSize
  key_letters : ∀ b ∈ pair.key, b ∈ alphabet
  value_letters : ∀ b ∈ pair.value, b ∈ alphabet

theorem pair_within (shape : SampleShape) : shape.pair.Within (Shaped shape) := by
  have hText (size : Nat) := Draw.Within.collect (fun _ => letter_within) size
  refine (hText shape.keySize).bind fun key hKey => ?_
  refine (hText shape.valueSize).map fun value hValue => ?_
  exact ⟨hKey.1, hValue.1, hKey.2, hValue.2⟩

namespace Shaped

variable {shape : SampleShape} {pair : Pair} (h : Shaped shape pair)

include h

theorem delimiter_notMem : delimiter ∉ pair.key :=
  fun hKey => delimiter_notMem_alphabet (h.key_letters _ hKey)

theorem newline_notMem : newline ∉ pair.key ∧ newline ∉ pair.value :=
  ⟨fun hKey => newline_notMem_alphabet (h.key_letters _ hKey),
    fun hValue => newline_notMem_alphabet (h.value_letters _ hValue)⟩

/-- The line of a pair has two bytes more than the pair. -/
theorem length_line : pair.line.length = shape.keySize + shape.valueSize + 2 := by
  simp [Pair.line, h.key_length, h.value_length]
  omega

end Shaped

/-- Pairs that memory can hold. A list of them has thirty-two bytes for each, and a text has a byte
for each letter; none of these lists may have `2 ^ 63` bytes. -/
structure Roomy (shape : SampleShape) : Prop where
  pairs : shape.pairs < 2 ^ 58
  key : shape.pairs ≠ 0 → shape.keySize < 2 ^ 63
  value : shape.pairs ≠ 0 → shape.valueSize < 2 ^ 63

section Generated

variable {shape : SampleShape} {seed : UInt64}

theorem Roomy.of_le (h : Roomy shape) {fewer : Nat} (hFewer : fewer ≤ shape.pairs) :
    Roomy { shape with pairs := fewer } where
  pairs := Nat.lt_of_le_of_lt hFewer h.pairs
  key (hSome : fewer ≠ 0) := h.key (by omega)
  value (hSome : fewer ≠ 0) := h.value (by omega)

theorem roomy_iff : Roomy shape ↔
    shape.pairs * Pair.width ≤ memoryMax ∧
      (shape.pairs ≠ 0 → shape.keySize * 1 ≤ memoryMax ∧ shape.valueSize * 1 ≤ memoryMax) := by
  rw [Pair.width, memoryMax]
  constructor
  · rintro ⟨hPairs, hKey, hValue⟩
    omega
  · rintro ⟨hPairs, hTexts⟩
    exact ⟨by omega, by omega, by omega⟩

/-- There is room for all that is asked for, or the first request that is too large ends it. -/
theorem reserve_cases (shape : SampleShape) :
    (Roomy shape ∧ shape.reserve = .ok ()) ∨
      (¬ Roomy shape ∧ shape.reserve = .error .capacity) := by
  rw [roomy_iff, reserve, StoreBench.reserve, StoreBench.reserve, StoreBench.reserve]
  by_cases hPairs : shape.pairs * Pair.width ≤ memoryMax
  · rw [if_pos hPairs]
    by_cases hSome : shape.pairs = 0
    -- Without pairs there are no texts, and their sizes do not matter.
    · rw [if_neg (not_not.mpr hSome)]
      exact Or.inl ⟨⟨hPairs, fun h => absurd hSome h⟩, rfl⟩
    · rw [if_pos hSome]
      by_cases hKey : shape.keySize * 1 ≤ memoryMax
      · rw [if_pos hKey]
        by_cases hValue : shape.valueSize * 1 ≤ memoryMax
        · rw [if_pos hValue]
          exact Or.inl ⟨⟨hPairs, fun _ => ⟨hKey, hValue⟩⟩, rfl⟩
        · rw [if_neg hValue]
          exact Or.inr ⟨fun h => hValue (h.2 hSome).2, rfl⟩
      · rw [if_neg hKey]
        exact Or.inr ⟨fun h => hKey (h.2 hSome).1, rfl⟩
  · rw [if_neg hPairs]
    exact Or.inr ⟨fun h => hPairs h.1, rfl⟩

/-- The pairs that a seed makes. -/
def drawn (shape : SampleShape) (seed : UInt64) : List Pair :=
  ((collect (fun _ => shape.pair) shape.pairs).run (WordStream.ofSeed seed)).1

theorem drawn_shaped (shape : SampleShape) (seed : UInt64) :
    (shape.drawn seed).length = shape.pairs ∧ ∀ pair ∈ shape.drawn seed, Shaped shape pair :=
  Draw.Within.collect (fun _ => pair_within shape) shape.pairs (WordStream.ofSeed seed)

theorem drawn_take {fewer : Nat} (h : fewer ≤ shape.pairs) :
    { shape with pairs := fewer }.drawn seed = (shape.drawn seed).take fewer :=
  Draw.run_collect_take (fun _ => shape.pair) h (WordStream.ofSeed seed)

theorem generate_eq (hKey : 1 ≤ shape.keySize) :
    shape.generate seed =
      Failure.ofFault (shape.reserve.map fun _ => (shape.drawn seed).toArray) := by
  rw [generate, validate, if_neg (Nat.ne_of_gt hKey), make]
  cases shape.reserve <;> rfl

/-- The pairs are made if memory can hold them. -/
theorem generate_eq_ok (hKey : 1 ≤ shape.keySize) (hRoom : Roomy shape) :
    shape.generate seed = .ok (shape.drawn seed).toArray := by
  obtain ⟨_, hReserved⟩ | ⟨hNone, _⟩ := reserve_cases shape
  · rw [generate_eq hKey, hReserved]
    rfl
  · exact absurd hRoom hNone

theorem generate_eq_error_iff (hKey : 1 ≤ shape.keySize) :
    shape.generate seed = .error (.fault .capacity) ↔ ¬ Roomy shape := by
  obtain ⟨hRoom, _⟩ | ⟨hNone, hReserved⟩ := reserve_cases shape
  · rw [generate_eq_ok hKey hRoom]
    exact iff_of_false nofun (not_not.mpr hRoom)
  · rw [generate_eq hKey, hReserved]
    exact iff_of_true rfl hNone

theorem print_drawn (shape : SampleShape) (seed : UInt64) :
    SampleSet.print (shape.drawn seed).toArray =
      ((shape.drawn seed).flatMap Pair.line, .ok ()) := by
  refine SampleSet.print_eq_ok_iff.mpr ⟨fun pair hPair => ?_, rfl⟩
  exact ((drawn_shaped shape seed).2 pair (by simpa using hPair)).delimiter_notMem

theorem parse_drawn (shape : SampleShape) (seed : UInt64) :
    SampleSet.parse ((shape.drawn seed).flatMap Pair.line) = .ok (shape.drawn seed).toArray := by
  have hShaped : ∀ pair ∈ (shape.drawn seed).toArray, Shaped shape pair := by
    simpa using (drawn_shaped shape seed).2
  exact SampleSet.parse_flatMap_line (fun pair hPair => (hShaped pair hPair).delimiter_notMem)
    (fun pair hPair => (hShaped pair hPair).newline_notMem)

theorem length_flatMap_line (shape : SampleShape) (seed : UInt64) :
    ((shape.drawn seed).flatMap Pair.line).length =
      shape.pairs * (shape.keySize + shape.valueSize + 2) := by
  obtain ⟨hLength, hShaped⟩ := drawn_shaped shape seed
  rw [List.length_flatMap, List.map_congr_left fun pair hPair => (hShaped pair hPair).length_line,
    List.map_const', List.sum_replicate_nat, hLength]

/-- Generation of pairs with keys fails exactly if memory cannot hold them. Otherwise there are as
many pairs as asked for, each of the sizes asked for. Their document, with a delimiter and a newline
for each of them, is read as the same pairs again, and fewer of them are the beginning of these. -/
theorem generated_survives (shape : SampleShape) (seed : UInt64) (hKey : 1 ≤ shape.keySize) :
    (shape.generate seed = .error (.fault .capacity) ↔ ¬ Roomy shape) ∧
      (Roomy shape → ∃ samples written,
        shape.generate seed = .ok samples ∧ samples.size = shape.pairs ∧
          (∀ pair ∈ samples,
            pair.key.length = shape.keySize ∧ pair.value.length = shape.valueSize) ∧
          samples.print = (written, .ok ()) ∧ SampleSet.parse written = .ok samples ∧
          written.length = shape.pairs * (shape.keySize + shape.valueSize + 2) ∧
          ∀ fewer ≤ shape.pairs,
            { shape with pairs := fewer }.generate seed = .ok (samples.take fewer)) := by
  refine ⟨generate_eq_error_iff hKey, fun hRoom => ?_⟩
  obtain ⟨hLength, hShaped⟩ := drawn_shaped shape seed
  refine ⟨(shape.drawn seed).toArray, (shape.drawn seed).flatMap Pair.line,
    generate_eq_ok hKey hRoom, hLength, fun pair hPair => ?_, print_drawn shape seed,
    parse_drawn shape seed, length_flatMap_line shape seed, fun fewer hFewer => ?_⟩
  · have hPairShaped := hShaped pair (by simpa using hPair)
    exact ⟨hPairShaped.key_length, hPairShaped.value_length⟩
  · have hMade : { shape with pairs := fewer }.generate seed = .ok _ :=
      generate_eq_ok hKey (hRoom.of_le hFewer)
    rw [hMade, drawn_take hFewer, List.take_toArray]

/-- Three pairs, and two of them, with values of no bytes. -/
theorem generated_survives_empty_values :
    let shape : SampleShape := { keySize := 4, valueSize := 0, pairs := 3 }
    ∃ samples : SampleSet, shape.generate 7 = .ok samples ∧ samples.size = 3 ∧
      (∀ pair ∈ samples, pair.key.length = 4 ∧ pair.value = []) ∧
      ∃ written, samples.print = (written, .ok ()) ∧ SampleSet.parse written = .ok samples ∧
        written.length = 18 ∧ { shape with pairs := 2 }.generate 7 = .ok (samples.take 2) := by
  intro shape
  have hRoom : Roomy shape := ⟨by decide, by decide, by decide⟩
  obtain ⟨samples, written, hMade, hSize, hLengths, hPrinted, hRead, hWritten, hFewer⟩ :=
    (generated_survives shape 7 (by decide)).2 hRoom
  refine ⟨samples, hMade, hSize, fun pair hPair => ?_, written, hPrinted, hRead, hWritten,
    hFewer 2 (by decide)⟩
  exact ⟨(hLengths pair hPair).1, List.length_eq_zero_iff.mp (hLengths pair hPair).2⟩

/-- A list of pairs that is larger than any list can be is not made. -/
theorem generate_beyond_memory :
    ¬ ∀ (shape : SampleShape) (seed : UInt64), 1 ≤ shape.keySize → shape.keySize ≤ wordMax →
      shape.valueSize ≤ wordMax → shape.pairs ≤ wordMax →
        ∃ samples : SampleSet, shape.generate seed = .ok samples ∧ samples.size = shape.pairs := by
  intro h
  let shape : SampleShape := { keySize := 1, valueSize := 0, pairs := 2 ^ 58 }
  have hRefused : shape.generate 1 = .error (.fault .capacity) :=
    (generate_eq_error_iff (by decide)).mpr fun hRoom => absurd hRoom.pairs (by decide)
  obtain ⟨samples, hMade, _⟩ := h shape 1 (by decide) (by decide) (by decide) (by decide)
  rw [hRefused] at hMade
  cases hMade

end Generated

end SampleShape

end StoreBench
