import StoreBench.Proofs.Sample.Grammar
import StoreBench.Proofs.Sample.RoundTrip

/-! Documents in normal form. Reading and printing together leave out empty lines and end the last
line, and nothing else of a document is lost. A document that was printed stays as it is. -/
namespace StoreBench.SampleSet

/-- The document without its empty lines, and with a newline behind each of the others. -/
def normalForm (document : Bytes) : Bytes :=
  ((document.splitOn newline).filter (· ≠ [])).flatMap (· ++ [newline])

theorem flatMap_line (pairs : List Pair) :
    pairs.flatMap Pair.line = (pairs.map Pair.text).flatMap (· ++ [newline]) := by
  rw [List.flatMap_map]
  rfl

/-- Pairs without newlines, and with no delimiters in their keys, come back from their lines. -/
theorem parse_flatMap_line {samples : SampleSet} (hKeys : ∀ pair ∈ samples, delimiter ∉ pair.key)
    (hClean : ∀ pair ∈ samples, newline ∉ pair.key ∧ newline ∉ pair.value) :
    parse (samples.toList.flatMap Pair.line) = .ok samples := by
  have hLines : lines (samples.toList.flatMap Pair.line) = samples.toList.map Pair.text :=
    lines_printed samples.toList (by simpa using hClean)
  have hFull : ∀ line ∈ samples.toList.map Pair.text, (line ≠ [] : Bool) = true := by
    simp [Pair.text]
  rw [parse_eq, hLines, ofLines_eq_ok_iff, Pair.cut_iff]
  exact ⟨by simpa using hKeys, (List.filter_eq_self.mpr hFull).symm⟩

section Loaded

variable {document : Bytes} {samples : SampleSet}

theorem print_of_parse (h : parse document = .ok samples) :
    samples.print = (normalForm document, .ok ()) := by
  obtain ⟨hKeys, hTexts⟩ := parse_eq_ok_iff_texts.mp h
  rw [print_eq_ok_iff, flatMap_line, hTexts]
  exact ⟨hKeys, rfl⟩

/-- The printed lines are the lines that were read, since none of them holds a newline. -/
theorem parse_normalForm (h : parse document = .ok samples) :
    parse (normalForm document) = .ok samples := by
  obtain ⟨hKeys, hPrinted⟩ := print_eq_ok_iff.mp (print_of_parse h)
  rw [hPrinted]
  exact parse_flatMap_line hKeys (newline_notMem_of_parse h)

end Loaded

section Refused

variable {samples : SampleSet} {written : Bytes} {error : SampleError}

/-- Printing stops at the first key with a delimiter, with all pairs before it written. -/
theorem print_eq_error_iff :
    samples.print = (written, .error error) ↔
      ∃ before pair after, samples.toList = before ++ pair :: after ∧
        (∀ earlier ∈ before, delimiter ∉ earlier.key) ∧ delimiter ∈ pair.key ∧
          error = .delimiterInKey before.length ∧ written = before.flatMap Pair.line := by
  constructor
  · intro h
    rcases print_cases samples with ⟨_, hPrinted⟩ | ⟨before, pair, after, hPairs, hBefore, hPair,
      hPrinted⟩
    · rw [hPrinted] at h
      cases h
    · rw [hPrinted] at h
      cases h
      exact ⟨before, pair, after, hPairs, hBefore, hPair, rfl, rfl⟩
  · rintro ⟨before, pair, after, hPairs, hBefore, hPair, rfl, rfl⟩
    rw [print, hPairs, printFrom_refused hBefore hPair]

theorem exists_print_error_iff :
    (∃ written error, samples.print = (written, .error error)) ↔
      ∃ pair ∈ samples, delimiter ∈ pair.key := by
  constructor
  · rintro ⟨written, error, h⟩
    obtain ⟨before, pair, after, hPairs, _, hPair, _⟩ := print_eq_error_iff.mp h
    exact ⟨pair, Array.mem_toList_iff.mp (by simp [hPairs]), hPair⟩
  · rintro ⟨pair, hMem, hPair⟩
    cases hPrinted : samples.print with
    | mk written ended =>
        cases ended with
        | error error => exact ⟨written, error, rfl⟩
        | ok => exact absurd hPair ((print_eq_ok_iff.mp hPrinted).1 pair hMem)

end Refused

/-- What was loaded is printed in normal form, which is loaded as the same pairs and printed as the
same bytes again. Printing is refused for a delimiter in a key and for nothing else. -/
theorem loading_normalizes :
    (∀ document samples, parse document = .ok samples →
      samples.print = (normalForm document, .ok ()) ∧
      parse (normalForm document) = .ok samples ∧
      ∀ again, parse (normalForm document) = .ok again →
        again.print = (normalForm document, .ok ())) ∧
    ∀ samples : SampleSet,
      ((∃ written error, samples.print = (written, .error error)) ↔
        ∃ pair ∈ samples, delimiter ∈ pair.key) ∧
      ∀ written error, samples.print = (written, .error error) ↔
        ∃ before pair after, samples.toList = before ++ pair :: after ∧
          (∀ earlier ∈ before, delimiter ∉ earlier.key) ∧ delimiter ∈ pair.key ∧
            error = .delimiterInKey before.length ∧ written = before.flatMap Pair.line := by
  constructor
  · intro document samples hLoaded
    have hAgain := parse_normalForm hLoaded
    refine ⟨print_of_parse hLoaded, hAgain, ?_⟩
    intro again hParsed
    rw [hAgain] at hParsed
    cases hParsed
    exact print_of_parse hLoaded
  · intro samples
    exact ⟨exists_print_error_iff, fun written error => print_eq_error_iff⟩

/-- Runs of empty lines and an unfinished last line; a carriage return stays part of its value. -/
theorem loading_normalizes_ragged :
    let document : Bytes := [10, 10, 107, 59, 49, 59, 13, 10, 10, 59, 255]
    let samples : SampleSet := #[⟨[107], [49, 59, 13]⟩, ⟨[], [255]⟩]
    let written : Bytes := [107, 59, 49, 59, 13, 10, 59, 255, 10]
    normalForm document = written ∧ parse document = .ok samples ∧
      samples.print = (written, .ok ()) ∧ parse written = .ok samples := by
  intro document samples written
  have hNormal : normalForm document = written := by decide
  have hLoaded : parse document = .ok samples := by decide
  obtain ⟨hPrinted, hAgain, _⟩ := loading_normalizes.1 document samples hLoaded
  rw [hNormal] at hPrinted hAgain
  exact ⟨hNormal, hLoaded, hPrinted, hAgain⟩

end StoreBench.SampleSet
