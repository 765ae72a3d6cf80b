import Mathlib.Data.List.Basic
import StoreBench.Proofs.Sample.Document

/-! Sample data that comes back from its document. Printing refuses a delimiter in a key, which
would end the key too early. It lets newlines pass, and a pair with a newline in it is printed as
several lines, which are not read as that pair again. -/
namespace StoreBench

namespace SampleSet

section Printing

variable {before after : List Pair} {pair : Pair}

/-- Pairs with no delimiters in their keys are written to their end. -/
theorem printFrom_append (hBefore : ∀ earlier ∈ before, delimiter ∉ earlier.key) (index : Nat)
    (done : List Bytes) :
    printFrom index done (before ++ after) =
      printFrom (index + before.length) ((before.map Pair.line).reverse ++ done) after := by
  induction before generalizing index done with
  | nil => rfl
  | cons first rest ih =>
      obtain ⟨hFirst, hRest⟩ := List.forall_mem_cons.mp hBefore
      have hPasses : ¬ first.key.contains delimiter = true :=
        fun h => hFirst (List.contains_iff_mem.mp h)
      have hIndex : index + 1 + rest.length = index + (rest.length + 1) := by omega
      rw [List.cons_append, printFrom, if_neg hPasses, ih hRest, hIndex]
      simp

theorem printFrom_clean (hBefore : ∀ earlier ∈ before, delimiter ∉ earlier.key) :
    printFrom 0 [] before = (before.flatMap Pair.line, .ok ()) := by
  have hWritten : printFrom 0 [] (before ++ []) = _ := printFrom_append hBefore 0 []
  rw [List.append_nil] at hWritten
  rw [hWritten, printFrom, List.append_nil, List.reverse_reverse, List.flatMap_def]

/-- Writing ends in front of the first key with a delimiter. -/
theorem printFrom_refused (hBefore : ∀ earlier ∈ before, delimiter ∉ earlier.key)
    (hPair : delimiter ∈ pair.key) :
    printFrom 0 [] (before ++ pair :: after) =
      (before.flatMap Pair.line, .error (.delimiterInKey before.length)) := by
  rw [printFrom_append hBefore, printFrom, if_pos (List.contains_iff_mem.mpr hPair),
    List.append_nil, List.reverse_reverse, List.flatMap_def, Nat.zero_add]

/-- Writing gets to its end, or to the first key with a delimiter. -/
theorem print_cases (samples : SampleSet) :
    ((∀ pair ∈ samples, delimiter ∉ pair.key) ∧
        samples.print = (samples.toList.flatMap Pair.line, .ok ())) ∨
      ∃ before pair after, samples.toList = before ++ pair :: after ∧
        (∀ earlier ∈ before, delimiter ∉ earlier.key) ∧ delimiter ∈ pair.key ∧
        samples.print = (before.flatMap Pair.line, .error (.delimiterInKey before.length)) := by
  cases hFirst : samples.toList.find? (·.key.contains delimiter) with
  | none =>
      have hKeys : ∀ pair ∈ samples.toList, delimiter ∉ pair.key := by
        simpa using List.find?_eq_none.mp hFirst
      exact Or.inl ⟨by simpa using hKeys, printFrom_clean hKeys⟩
  | some pair =>
      obtain ⟨hPair, before, after, hPairs, hBefore⟩ := List.find?_eq_some_iff_append.mp hFirst
      have hEarlier : ∀ earlier ∈ before, delimiter ∉ earlier.key := by simpa using hBefore
      have hKey : delimiter ∈ pair.key := List.contains_iff_mem.mp hPair
      refine Or.inr ⟨before, pair, after, hPairs, hEarlier, hKey, ?_⟩
      rw [print, hPairs, printFrom_refused hEarlier hKey]

theorem print_eq_ok_iff {samples : SampleSet} {written : Bytes} :
    samples.print = (written, .ok ()) ↔
      (∀ pair ∈ samples, delimiter ∉ pair.key) ∧ written = samples.toList.flatMap Pair.line := by
  rcases print_cases samples with ⟨hKeys, hPrinted⟩ | ⟨before, pair, after, hPairs, _, hPair,
    hPrinted⟩
  · rw [hPrinted, and_iff_right hKeys, Prod.mk.injEq, and_iff_left rfl, eq_comm]
  · rw [hPrinted]
    constructor
    · intro h
      cases h
    · rintro ⟨hKeys, _⟩
      exact absurd hPair (hKeys pair (Array.mem_toList_iff.mp (by simp [hPairs])))

end Printing

/-- Pairs without newlines are printed as one line each. -/
theorem lines_printed (pairs : List Pair)
    (h : ∀ pair ∈ pairs, newline ∉ pair.key ∧ newline ∉ pair.value) :
    lines (pairs.flatMap Pair.line) =
      pairs.map fun pair => pair.key ++ delimiter :: pair.value := by
  induction pairs with
  | nil => rfl
  | cons pair more ih =>
      obtain ⟨⟨hKey, hValue⟩, hMore⟩ := List.forall_mem_cons.mp h
      have hLine : newline ∉ pair.key ++ delimiter :: pair.value := by
        have hDelimiter : newline ≠ delimiter := by decide
        simp [hKey, hValue, hDelimiter]
      calc lines ((pair :: more).flatMap Pair.line)
          = lines (pair.key ++ delimiter :: pair.value ++ newline :: more.flatMap Pair.line) := by
            simp [Pair.line]
        _ = (pair.key ++ delimiter :: pair.value) :: lines (more.flatMap Pair.line) :=
            lines_append hLine _
        _ = _ := by rw [ih hMore, List.map_cons]

/-- No pair of a document holds a newline, wherever the document comes from. -/
theorem newline_notMem_of_parse {document : Bytes} {samples : SampleSet}
    (h : parse document = .ok samples) :
    ∀ pair ∈ samples, newline ∉ pair.key ∧ newline ∉ pair.value := by
  obtain ⟨_, hSamples⟩ := parse_eq_ok_iff.mp h
  intro pair hPair
  rw [← Array.mem_toList_iff, hSamples] at hPair
  obtain ⟨line, hLine, hRead⟩ := List.mem_filterMap.mp hPair
  obtain ⟨_, rfl⟩ := Pair.ofLine?_eq_some_iff.mp hRead
  have hNone := newline_notMem_of_mem_lines document _ hLine
  rw [List.mem_append, not_or] at hNone
  exact ⟨hNone.1, List.not_mem_of_not_mem_cons hNone.2⟩

/-- Sample data that was printed to its end is read from the document again, pair by pair, exactly
if no key and no value of it holds a newline. -/
theorem printed_loads_iff (samples : SampleSet) (written : Bytes)
    (hPrinted : samples.print = (written, .ok ())) :
    parse written = .ok samples ↔
      ∀ pair ∈ samples, newline ∉ pair.key ∧ newline ∉ pair.value := by
  obtain ⟨hKeys, rfl⟩ := print_eq_ok_iff.mp hPrinted
  constructor
  · exact newline_notMem_of_parse
  · intro hClean
    have hLines := lines_printed samples.toList (by simpa using hClean)
    have hRead (pair : Pair) (hPair : pair ∈ samples.toList) :
        Pair.ofLine? (pair.key ++ delimiter :: pair.value) = some pair :=
      Pair.ofLine?_eq_some_iff.mpr ⟨hKeys pair (by simpa using hPair), rfl⟩
    rw [parse_eq_ok_iff, hLines]
    constructor
    · intro line hLine _
      obtain ⟨pair, hPair, rfl⟩ := List.mem_map.mp hLine
      rw [hRead pair hPair, Option.isSome_some]
    · calc samples.toList
          = samples.toList.filterMap some := List.filterMap_some.symm
        _ = samples.toList.filterMap
              (Pair.ofLine? ∘ fun pair => pair.key ++ delimiter :: pair.value) :=
            List.filterMap_congr fun pair hPair => (hRead pair hPair).symm
        _ = _ := List.filterMap_map.symm

/-- Delimiters in a value, an empty key and an empty value come back. -/
theorem printed_loads_delimiters :
    let samples : SampleSet := #[⟨[107], [59, 59, 118]⟩, ⟨[], []⟩, ⟨[107], [0, 255]⟩]
    let written : Bytes := [107, 59, 59, 59, 118, 10, 59, 10, 107, 59, 0, 255, 10]
    samples.print = (written, .ok ()) ∧ parse written = .ok samples := by
  intro samples written
  have hPrinted : samples.print = (written, .ok ()) := by decide
  exact ⟨hPrinted, (printed_loads_iff samples written hPrinted).mpr (by decide)⟩

/-- One pair is printed as two lines, and both of them are pairs. -/
theorem printed_newline_splits :
    let samples : SampleSet := #[⟨[107], [120, 10, 121, 59, 122]⟩]
    let written : Bytes := [107, 59, 120, 10, 121, 59, 122, 10]
    samples.print = (written, .ok ()) ∧
      parse written = .ok #[⟨[107], [120]⟩, ⟨[121], [122]⟩] ∧ parse written ≠ .ok samples := by
  decide

end SampleSet

end StoreBench
