import Mathlib.Data.List.Basic
import StoreBench.Proofs.Sample.Document

/-! The grammar of sample data, said of the pieces that the newlines of a document leave. A last
piece without bytes is not a line, but it holds no pair and no fault either, so the pieces decide
what is read. Two documents joined by a newline have the pieces of the one and then those of the
other, and are read accordingly. -/
namespace StoreBench

section Pieces

/-- The lines of a document are its pieces, but for an empty piece behind the last newline. -/
theorem splitOn_newline (document : Bytes) :
    document.splitOn newline = lines document ∨
      document.splitOn newline = lines document ++ [[]] := by
  induction document with
  | nil => exact .inr rfl
  | cons b rest ih =>
      have hLines : lines (b :: rest) = consByte b (lines rest) := rfl
      rw [List.splitOn_cons_eq_if_modifyHead, hLines, consByte.eq_def]
      by_cases hNewline : b = newline
      · simpa [hNewline] using ih
      · cases hRest : lines rest with
        | nil =>
            have hPieces : rest.splitOn newline = [[]] := by
              simpa [hRest, List.splitOn_ne_nil] using ih
            exact .inl (by simp [hNewline, hPieces])
        | cons line more =>
            rw [hRest] at ih
            rcases ih with h | h <;> simp [hNewline, h]

/-- Each newline begins a new piece. -/
theorem length_splitOn_newline (document : Bytes) :
    (document.splitOn newline).length = document.count newline + 1 := by
  induction document with
  | nil => rfl
  | cons b rest ih =>
      rw [List.splitOn_cons_eq_if_modifyHead, List.count_cons]
      split
      · rw [List.length_cons, ih]
      · rw [List.length_modifyHead, ih, Nat.add_zero]

end Pieces

/-- A pair as a line, without the newline behind it. -/
def Pair.text (p : Pair) : Bytes := p.key ++ delimiter :: p.value

theorem Pair.ofLine?_text {pair : Pair} (h : delimiter ∉ pair.key) :
    ofLine? pair.text = some pair :=
  ofLine?_eq_some_iff.mpr ⟨h, rfl⟩

/-- Lines are cut into pairs if these, written again, are the lines that are not empty, and no
key goes beyond the first delimiter. -/
theorem Pair.cut_iff {lines : List Bytes} {pairs : List Pair} :
    ((∀ line ∈ lines, Readable line) ∧ pairs = lines.filterMap ofLine?) ↔
      (∀ pair ∈ pairs, delimiter ∉ pair.key) ∧ pairs.map text = lines.filter (· ≠ []) := by
  constructor
  · rintro ⟨hReadable, rfl⟩
    constructor
    · intro pair hPair
      obtain ⟨line, _, hCut⟩ := List.mem_filterMap.mp hPair
      exact (ofLine?_eq_some_iff.mp hCut).1
    · induction lines with
      | nil => rfl
      | cons line more ih =>
          obtain ⟨hLine, hMore⟩ := List.forall_mem_cons.mp hReadable
          rcases hLine with rfl | hDelimiter
          · rw [List.filterMap_cons_none rfl, ih hMore, List.filter_cons_of_neg (by simp)]
          · obtain ⟨pair, hCut⟩ := Option.isSome_iff_exists.mp (isSome_ofLine?_iff.mpr hDelimiter)
            have hText : pair.text = line := (ofLine?_eq_some_iff.mp hCut).2.symm
            have hFull : line ≠ [] := List.ne_nil_of_mem hDelimiter
            rw [List.filterMap_cons_some hCut, List.map_cons, hText, ih hMore,
              List.filter_cons_of_pos (by simpa using hFull)]
  · rintro ⟨hKeys, hTexts⟩
    constructor
    · intro line hLine
      by_cases hEmpty : line = []
      · exact .inl hEmpty
      · have hMem : line ∈ pairs.map text := by
          rw [hTexts]
          exact List.mem_filter.mpr ⟨hLine, by simpa using hEmpty⟩
        obtain ⟨pair, _, rfl⟩ := List.mem_map.mp hMem
        exact .inr (by simp [text])
    · calc pairs
          = pairs.filterMap some := List.filterMap_some.symm
        _ = pairs.filterMap (ofLine? ∘ text) :=
            List.filterMap_congr fun pair hPair => (ofLine?_text (hKeys pair hPair)).symm
        _ = (lines.filter (· ≠ [])).filterMap ofLine? := by rw [← List.filterMap_map, hTexts]
        _ = lines.filterMap ofLine? := by
            rw [List.filterMap_filter]
            refine List.filterMap_congr fun line _ => ?_
            by_cases hEmpty : line = []
            · simp [hEmpty, ofLine?]
            · simp [hEmpty]

namespace SampleSet

/-- The first line that is not readable is named by its number, counted from one. -/
theorem ofLines_eq_error_iff {lines : List Bytes} {error : SampleError} :
    ofLines lines = .error error ↔
      ∃ before line after, lines = before ++ line :: after ∧
        (∀ earlier ∈ before, Readable earlier) ∧ ¬ Readable line ∧
          error = .missingDelimiter (before.length + 1) := by
  rw [ofLines]
  constructor
  · intro h
    split at h
    · rename_i index hFound
      cases h
      obtain ⟨before, line, after, hLines, hBefore, hLine, rfl⟩ :=
        findIdx?_eq_some_iff_append.mp hFound
      exact ⟨before, line, after, hLines, by simpa using hBefore, by simpa using hLine, rfl⟩
    · cases h
  · rintro ⟨before, line, after, hLines, hBefore, hLine, rfl⟩
    have hFound : (lines.findIdx? fun line => ¬ Readable line) = some before.length :=
      findIdx?_eq_some_iff_append.mpr
        ⟨before, line, after, hLines, by simpa using hBefore, by simpa using hLine, rfl⟩
    rw [hFound]

/-- An empty line at the end is nothing to read. -/
theorem ofLines_snoc_empty (lines : List Bytes) : ofLines (lines ++ [[]]) = ofLines lines := by
  have hNone : ([[]].findIdx? fun line => ¬ Readable line) = none := by decide
  have hPairs : (lines ++ [[]]).filterMap Pair.ofLine? = lines.filterMap Pair.ofLine? := by
    rw [List.filterMap_append]
    exact List.append_nil _
  rw [ofLines, ofLines, List.findIdx?_append, hNone, Option.map_none, Option.or_none, hPairs]

/-- The pieces in place of the lines. -/
theorem parse_eq_pieces (document : Bytes) :
    parse document = ofLines (document.splitOn newline) := by
  rw [parse_eq]
  rcases splitOn_newline document with h | h
  · rw [h]
  · rw [h, ofLines_snoc_empty]

/-- A document is read if all its pieces are readable; its pairs are then these pieces without the
empty ones. -/
theorem parse_eq_ok_iff_texts {document : Bytes} {samples : SampleSet} :
    parse document = .ok samples ↔
      (∀ pair ∈ samples, delimiter ∉ pair.key) ∧
        samples.toList.map Pair.text = (document.splitOn newline).filter (· ≠ []) := by
  rw [parse_eq_pieces, ofLines_eq_ok_iff, Pair.cut_iff]
  simp only [Array.mem_toList_iff]

theorem exists_parse_iff (document : Bytes) :
    (∃ samples, parse document = .ok samples) ↔
      ∀ line ∈ document.splitOn newline, Readable line := by
  rw [parse_eq_pieces]
  constructor
  · rintro ⟨samples, h⟩
    exact (ofLines_eq_ok_iff.mp h).1
  · intro h
    exact ⟨((document.splitOn newline).filterMap Pair.ofLine?).toArray,
      ofLines_eq_ok_iff.mpr ⟨h, rfl⟩⟩

section Joined

variable {first second : Bytes} {left right : SampleSet} {error : SampleError} {place : Nat}

theorem parse_joined (first second : Bytes) :
    parse (first ++ newline :: second) =
      ofLines (first.splitOn newline ++ second.splitOn newline) := by
  rw [parse_eq_pieces, List.splitOn_append_cons_self]

theorem parse_joined_ok (hFirst : parse first = .ok left) (hSecond : parse second = .ok right) :
    parse (first ++ newline :: second) = .ok (left ++ right) := by
  rw [parse_eq_pieces, ofLines_eq_ok_iff] at hFirst hSecond
  rw [parse_joined, ofLines_eq_ok_iff]
  constructor
  · exact List.forall_mem_append.mpr ⟨hFirst.1, hSecond.1⟩
  · rw [Array.toList_append, hFirst.2, hSecond.2, List.filterMap_append]

theorem parse_joined_of_first (hFirst : parse first = .error error) :
    parse (first ++ newline :: second) = .error error := by
  rw [parse_eq_pieces, ofLines_eq_error_iff] at hFirst
  obtain ⟨before, line, after, hPieces, hFault⟩ := hFirst
  rw [parse_joined, ofLines_eq_error_iff]
  exact ⟨before, line, after ++ second.splitOn newline, by simp [hPieces], hFault⟩

/-- Behind a document that was read, lines are counted on. -/
theorem parse_joined_of_second (hFirst : parse first = .ok left)
    (hSecond : parse second = .error (.missingDelimiter place)) :
    parse (first ++ newline :: second) =
      .error (.missingDelimiter (first.count newline + 1 + place)) := by
  rw [parse_eq_pieces, ofLines_eq_ok_iff] at hFirst
  rw [parse_eq_pieces, ofLines_eq_error_iff] at hSecond
  obtain ⟨before, line, after, hPieces, hBefore, hLine, hPlace⟩ := hSecond
  cases hPlace
  rw [parse_joined, ofLines_eq_error_iff]
  refine ⟨first.splitOn newline ++ before, line, after, by simp [hPieces],
    List.forall_mem_append.mpr ⟨hFirst.1, hBefore⟩, hLine, ?_⟩
  rw [List.length_append, length_splitOn_newline, ← Nat.add_assoc]

end Joined

/-- Sample data is a sequence of lines, each of them empty or a key, a delimiter and a value. Of
any other document the first line that does not fit is named, and two documents joined by a newline
are read one after the other, with their lines numbered through. -/
theorem parse_by_lines :
    (∀ document, (∃ samples, parse document = .ok samples) ↔
      ∀ line ∈ document.splitOn newline, line = [] ∨ delimiter ∈ line) ∧
    (∀ document samples, parse document = .ok samples ↔
      (∀ pair ∈ samples, delimiter ∉ pair.key) ∧
        samples.toList.map (fun pair => pair.key ++ delimiter :: pair.value) =
          (document.splitOn newline).filter (· ≠ [])) ∧
    (∀ document error, parse document = .error error ↔
      ∃ before line after, document.splitOn newline = before ++ line :: after ∧
        (∀ earlier ∈ before, earlier = [] ∨ delimiter ∈ earlier) ∧
          line ≠ [] ∧ delimiter ∉ line ∧ error = .missingDelimiter (before.length + 1)) ∧
    ∀ first second,
      (∀ left right, parse first = .ok left → parse second = .ok right →
        parse (first ++ newline :: second) = .ok (left ++ right)) ∧
      (∀ error, parse first = .error error →
        parse (first ++ newline :: second) = .error error) ∧
      ∀ left place, parse first = .ok left → parse second = .error (.missingDelimiter place) →
        parse (first ++ newline :: second) =
          .error (.missingDelimiter (first.count newline + 1 + place)) := by
  refine ⟨exists_parse_iff, fun document samples => parse_eq_ok_iff_texts, ?_, ?_⟩
  · intro document error
    rw [parse_eq_pieces, ofLines_eq_error_iff]
    simp only [Readable, not_or, and_assoc]
  · intro first second
    refine ⟨fun left right => parse_joined_ok, fun error => parse_joined_of_first, ?_⟩
    intro left place
    exact parse_joined_of_second

/-- Empty lines, an unfinished last line and delimiters in a value. The second document fails in
its third line, which is the seventh of the whole. -/
theorem parse_by_lines_joined :
    let first : Bytes := [10, 97, 59, 59, 13, 10, 10, 59]
    let second : Bytes := [10, 255, 59, 10, 120, 10, 121]
    let left : SampleSet := #[⟨[97], [59, 13]⟩, ⟨[], []⟩]
    (parse first = .ok left ∧ parse (first ++ newline :: first) = .ok (left ++ left)) ∧
      (parse second = .error (.missingDelimiter 3) ∧
        parse (second ++ newline :: first) = .error (.missingDelimiter 3)) ∧
      parse (first ++ newline :: second) = .error (.missingDelimiter 7) := by
  intro first second left
  have hFirst : parse first = .ok left := by decide
  have hSecond : parse second = .error (.missingDelimiter 3) := by decide
  obtain ⟨hBoth, _, _⟩ := parse_by_lines.2.2.2 first first
  obtain ⟨_, hAhead, _⟩ := parse_by_lines.2.2.2 second first
  obtain ⟨_, _, hBehind⟩ := parse_by_lines.2.2.2 first second
  exact ⟨⟨hFirst, hBoth left left hFirst hFirst⟩, ⟨hSecond, hAhead _ hSecond⟩,
    hBehind left 3 hFirst hSecond⟩

end SampleSet

end StoreBench
