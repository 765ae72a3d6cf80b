import Mathlib.Data.List.TakeWhile
import StoreBench.Sample.Document

/-! Sample data as documents. Every byte opens one line at most, and no line holds a newline. A
document is sample data exactly if all its lines but the empty ones separate a key from a value. -/
namespace StoreBench

/-- What is found first has nothing like it in front of it. -/
theorem findIdx?_eq_some_iff_append {α : Type} {p : α → Bool} {items : List α} {index : Nat} :
    items.findIdx? p = some index ↔
      ∃ before item after, items = before ++ item :: after ∧
        (∀ earlier ∈ before, p earlier = false) ∧ p item = true ∧ index = before.length := by
  constructor
  · intro h
    obtain ⟨hIndex, hItem, hEarlier⟩ := List.findIdx?_eq_some_iff_getElem.mp h
    refine ⟨items.take index, items[index], items.drop (index + 1), ?_, ?_, hItem, ?_⟩
    · rw [List.getElem_cons_drop, List.take_append_drop]
    · intro earlier hMem
      obtain ⟨place, hPlace, rfl⟩ := List.mem_take_iff_getElem.mp hMem
      exact Bool.eq_false_iff.mpr (hEarlier place (by omega))
    · rw [List.length_take_of_le hIndex.le]
  · rintro ⟨before, item, after, rfl, hBefore, hItem, rfl⟩
    rw [List.findIdx?_append, List.findIdx?_eq_none_iff.mpr hBefore, List.findIdx?_cons]
    simp [hItem]

section Lines

theorem length_consByte_le (b : UInt8) (lines : List Bytes) :
    (consByte b lines).length ≤ lines.length + 1 := by
  unfold consByte
  split
  · exact Nat.le_refl _
  · cases lines with
    | nil => exact Nat.le_refl _
    | cons line more => exact Nat.le_succ _

theorem length_lines_le (document : Bytes) : (lines document).length ≤ document.length := by
  induction document with
  | nil => exact Nat.le_refl 0
  | cons b rest ih => exact Nat.le_trans (length_consByte_le b _) (Nat.succ_le_succ ih)

theorem newline_notMem_of_mem_consByte {b : UInt8} {lines : List Bytes}
    (h : ∀ line ∈ lines, newline ∉ line) : ∀ line ∈ consByte b lines, newline ∉ line := by
  unfold consByte
  split
  · simpa using h
  · rename_i hJoins
    cases lines with
    | nil => simpa using Ne.symm hJoins
    | cons line more =>
        obtain ⟨hLine, hMore⟩ := List.forall_mem_cons.mp h
        refine List.forall_mem_cons.mpr ⟨?_, hMore⟩
        exact List.not_mem_cons_of_ne_of_not_mem (Ne.symm hJoins) hLine

theorem newline_notMem_of_mem_lines (document : Bytes) :
    ∀ line ∈ lines document, newline ∉ line := by
  induction document with
  | nil => exact fun _ hLine => nomatch hLine
  | cons b rest ih => exact newline_notMem_of_mem_consByte ih

/-- A newline ends the line in front of it, and what follows is read by itself. -/
theorem lines_append {line : Bytes} (h : newline ∉ line) (rest : Bytes) :
    lines (line ++ newline :: rest) = line :: lines rest := by
  induction line with
  | nil => rfl
  | cons b more ih =>
      have hByte : newline ≠ b := List.ne_of_not_mem_cons h
      have hMore : newline ∉ more := List.not_mem_of_not_mem_cons h
      calc lines (b :: more ++ newline :: rest)
          = consByte b (lines (more ++ newline :: rest)) := rfl
        _ = consByte b (more :: lines rest) := by rw [ih hMore]
        _ = (b :: more) :: lines rest := by rw [consByte, if_neg (Ne.symm hByte)]

end Lines

/-- The first delimiter of a line ends the key, and the value is all that comes after it. -/
theorem Pair.ofLine?_eq_some_iff {line : Bytes} {pair : Pair} :
    ofLine? line = some pair ↔
      delimiter ∉ pair.key ∧ line = pair.key ++ delimiter :: pair.value := by
  constructor
  · intro h
    have hSplit := List.takeWhile_append_dropWhile (p := (· != delimiter)) (l := line)
    rw [ofLine?] at h
    split at h
    · cases h
    · rename_i stop value hDropped
      cases h
      have hStop : stop = delimiter := by
        have hHead := List.head?_dropWhile_not (· != delimiter) line
        simpa [hDropped] using hHead
      rw [hDropped, hStop] at hSplit
      refine ⟨fun hKey => ?_, hSplit.symm⟩
      simpa using List.mem_takeWhile_imp hKey
  · rintro ⟨hKey, rfl⟩
    have hBytes : ∀ b ∈ pair.key, (b != delimiter) = true := by
      intro b hb
      exact bne_iff_ne.mpr fun hDelimiter => hKey (hDelimiter ▸ hb)
    rw [ofLine?, List.dropWhile_append_of_pos hBytes, List.takeWhile_append_of_pos hBytes]
    simp

theorem Pair.isSome_ofLine?_iff {line : Bytes} : (ofLine? line).isSome ↔ delimiter ∈ line := by
  constructor
  · intro h
    obtain ⟨pair, hPair⟩ := Option.isSome_iff_exists.mp h
    obtain ⟨_, rfl⟩ := ofLine?_eq_some_iff.mp hPair
    simp
  · intro h
    obtain ⟨key, value, rfl, hKey⟩ := List.eq_append_cons_of_mem h
    have hPair : ofLine? (key ++ delimiter :: value) = some ⟨key, value⟩ :=
      ofLine?_eq_some_iff.mpr ⟨hKey, rfl⟩
    rw [hPair, Option.isSome_some]

/-- A line that sample data may hold: it separates a key from a value, or it is empty. -/
def Readable (line : Bytes) : Prop := line = [] ∨ delimiter ∈ line

instance (line : Bytes) : Decidable (Readable line) :=
  inferInstanceAs (Decidable (line = [] ∨ delimiter ∈ line))

namespace SampleSet

/-- An empty line gives no pair and is no fault either. -/
theorem readLine_eq (line : Bytes) (number : Nat) :
    readLine line number =
      if Readable line then .ok (Pair.ofLine? line) else .error (.missingDelimiter number) := by
  cases line with
  | nil => rfl
  | cons b rest =>
      have hReadable : Readable (b :: rest) ↔ (Pair.ofLine? (b :: rest)).isSome := by
        simp [Readable, Pair.isSome_ofLine?_iff]
      cases hPair : Pair.ofLine? (b :: rest) <;> simp [readLine, hReadable, hPair]

/-- The first unreadable line decides, and if there is none, all lines are read. -/
theorem readLines_eq (lines : List Bytes) (number : Nat) :
    ((lines.zipIdx number).mapM fun entry => readLine entry.1 entry.2) =
      match lines.findIdx? fun line => ¬ Readable line with
      | some index => .error (.missingDelimiter (index + number))
      | none => .ok (lines.map Pair.ofLine?) := by
  induction lines generalizing number with
  | nil => rfl
  | cons line more ih =>
      rw [List.zipIdx_cons, List.mapM_cons, readLine_eq, ih (number + 1), List.findIdx?_cons]
      by_cases hLine : Readable line
      · cases more.findIdx? fun line => ¬ Readable line with
        | none => simp [hLine]; rfl
        | some index => simp [hLine, Nat.add_assoc, Nat.add_comm 1]; rfl
      · simp [hLine]
        rfl

/-- Sample data of lines without newlines. -/
def ofLines (lines : List Bytes) : Except SampleError SampleSet :=
  match lines.findIdx? fun line => ¬ Readable line with
  | some index => .error (.missingDelimiter (index + 1))
  | none => .ok (lines.filterMap Pair.ofLine?).toArray

theorem ofLines_eq_ok_iff {lines : List Bytes} {samples : SampleSet} :
    ofLines lines = .ok samples ↔
      (∀ line ∈ lines, Readable line) ∧ samples.toList = lines.filterMap Pair.ofLine? := by
  have hReadable : (∀ line ∈ lines, Readable line) ↔
      (lines.findIdx? fun line => ¬ Readable line) = none := by
    simp
  rw [ofLines, hReadable]
  cases lines.findIdx? fun line => ¬ Readable line with
  | none => simp [← Array.toList_inj, eq_comm]
  | some index => simp

/-- Sample data is read from a document line by line. -/
theorem parse_eq (document : Bytes) : parse document = ofLines (lines document) := by
  rw [parse, readLines_eq, ofLines]
  split
  · rfl
  · rw [← Function.id_comp Pair.ofLine?, ← List.filterMap_map]
    rfl

theorem parse_eq_ok_iff {document : Bytes} {samples : SampleSet} :
    parse document = .ok samples ↔
      (∀ line ∈ lines document, line ≠ [] → (Pair.ofLine? line).isSome) ∧
        samples.toList = (lines document).filterMap Pair.ofLine? := by
  rw [parse_eq, ofLines_eq_ok_iff]
  simp only [Readable, or_iff_not_imp_left, Pair.isSome_ofLine?_iff]

/-- A document has a pair in each line at most, and so no more pairs than bytes. -/
theorem size_le_of_parse {document : Bytes} {samples : SampleSet}
    (h : parse document = .ok samples) : samples.size ≤ document.length := by
  obtain ⟨_, hSamples⟩ := parse_eq_ok_iff.mp h
  calc samples.size = ((lines document).filterMap Pair.ofLine?).length := by
        rw [← hSamples, Array.length_toList]
    _ ≤ (lines document).length := List.length_filterMap_le _ _
    _ ≤ document.length := length_lines_le document

end SampleSet

end StoreBench
