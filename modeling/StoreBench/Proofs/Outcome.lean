import StoreBench.Collect
import StoreBench.Fault

/-! Computations that may fail. What came to a result did so in every step. -/
namespace StoreBench

variable {ε α β : Type}

theorem exists_of_bind_eq_ok {first : Except ε α} {next : α → Except ε β} {result : β}
    (h : (first >>= next) = .ok result) :
    ∃ middle, first = .ok middle ∧ next middle = .ok result := by
  cases first with
  | error e => cases h
  | ok middle => exact ⟨middle, rfl, h⟩

/-- A list is decoded item by item if every item is, where `view` is what an item holds besides its
place. -/
theorem mapM_eq_ok_iff {γ : Type} {step : α → Except ε β} {view : α → γ} {encode : β → γ}
    (h : ∀ item result, step item = .ok result ↔ view item = encode result) {items : List α}
    {results : List β} : items.mapM step = .ok results ↔ items.map view = results.map encode := by
  induction items generalizing results with
  | nil =>
      rw [List.mapM_nil, List.map_nil, eq_comm (a := []), List.map_eq_nil_iff]
      exact ⟨fun hDone => (Except.ok.inj hDone).symm, fun hNone => congrArg Except.ok hNone.symm⟩
  | cons item rest ih =>
      rw [List.mapM_cons, List.map_cons]
      constructor
      · intro hDone
        obtain ⟨first, hFirst, hMore⟩ := exists_of_bind_eq_ok hDone
        obtain ⟨others, hOthers, hResults⟩ := exists_of_bind_eq_ok hMore
        cases hResults
        rw [List.map_cons, (h item first).mp hFirst, ih.mp hOthers]
      · intro hMap
        obtain ⟨first, others, rfl, hFirst, hOthers⟩ := List.map_eq_cons_iff.mp hMap.symm
        rw [(h item first).mpr hFirst.symm, ih.mpr hOthers.symm]
        rfl

/-- A computation that checks its input. Without faults it has a result, and otherwise it fails
with the first of them. -/
inductive Blames : Except ε α → List ε → Prop where
  | clear (result : α) : Blames (.ok result) []
  | fault (first : ε) (others : List ε) : Blames (.error first) (first :: others)

namespace Blames

variable {computed : Except ε α} {faults more : List ε}

theorem error_iff (h : Blames computed faults) (error : ε) :
    computed = .error error ↔ faults.head? = some error := by
  cases h with
  | clear => simp
  | fault first others => simp

theorem exists_ok_iff (h : Blames computed faults) :
    (∃ result, computed = .ok result) ↔ faults = [] := by
  cases h with
  | clear => simp
  | fault first others => simp

theorem bind {next : α → Except ε β} (h : Blames computed faults)
    (hNext : ∀ result, Blames (next result) more) :
    Blames (computed >>= next) (faults ++ more) := by
  cases h with
  | clear result => exact hNext result
  | fault first others => exact .fault first (others ++ more)

theorem map (h : Blames computed faults) (f : α → β) :
    Blames (computed >>= fun result => pure (f result)) faults := by
  cases h with
  | clear result => exact .clear (f result)
  | fault first others => exact .fault first others

theorem mapM {step : α → Except ε β} {faultsOf : α → List ε}
    (h : ∀ item, Blames (step item) (faultsOf item)) (items : List α) :
    Blames (items.mapM step) (items.flatMap faultsOf) := by
  induction items with
  | nil => exact .clear []
  | cons item rest ih =>
      rw [List.mapM_cons, List.flatMap_cons]
      exact (h item).bind fun first => ih.map (first :: ·)

end Blames

theorem ne_error_of_map_eq_ok {ended : Except ε α} {view : α → β} {value : β}
    (h : ended.map view = .ok value) (failure : ε) : ended ≠ .error failure := by
  rintro rfl
  cases h

/-- A check of one item after the other passes if it passes for all of them. -/
theorem forM_eq_ok_iff {check : α → Except ε Unit} {items : List α} :
    items.forM check = .ok () ↔ ∀ item ∈ items, check item = .ok () := by
  induction items with
  | nil => exact iff_of_true rfl (fun _ hItem => nomatch hItem)
  | cons item rest ih =>
      rw [List.forall_mem_cons, ← ih]
      constructor
      · intro h
        obtain ⟨_, hFirst, hRest⟩ := exists_of_bind_eq_ok h
        exact ⟨hFirst, hRest⟩
      · rintro ⟨hFirst, hRest⟩
        change (check item >>= fun _ => rest.forM check) = .ok ()
        rw [hFirst]
        exact hRest

/-- What was collected are the results of the step, place by place. -/
theorem collect_eq_ok_iff {step : Nat → Except ε α} {count : Nat} {results : List α} :
    collect step count = .ok results ↔ results.length = count ∧
      ∀ (place : Nat) (h : place < results.length), step place = .ok results[place] := by
  have hStep (place : Nat) (result : α) : step place = .ok result ↔ step place = .ok result := .rfl
  rw [collect_eq_mapM, mapM_eq_ok_iff hStep]
  constructor
  · intro h
    have hLength : count = results.length := by simpa using congrArg List.length h
    refine ⟨hLength.symm, fun place hPlace => ?_⟩
    have hAt := congrArg (·[place]?) h
    simpa [hLength, hPlace] using hAt
  · rintro ⟨rfl, hEach⟩
    apply List.ext_getElem
    · simp
    · intro place hPlace _
      simpa using hEach place (by simpa using hPlace)

/-- What was collected are results of the step, as many as were asked for. -/
theorem of_collect_eq_ok {step : Nat → Except ε α} {count : Nat} {results : List α}
    (h : collect step count = .ok results) :
    results.length = count ∧ ∀ result ∈ results, ∃ place, step place = .ok result := by
  obtain ⟨hLength, hEach⟩ := collect_eq_ok_iff.mp h
  refine ⟨hLength, fun result hResult => ?_⟩
  obtain ⟨place, hPlace, rfl⟩ := List.getElem_of_mem hResult
  exact ⟨place, hEach place hPlace⟩

theorem exists_collect_iff {step : Nat → Except ε α} {count : Nat} :
    (∃ results, collect step count = .ok results) ↔
      ∀ place < count, ∃ result, step place = .ok result := by
  induction count with
  | zero => simp [collect, collectFrom, pure, Except.pure]
  | succ count ih =>
      rw [Nat.forall_lt_succ_right, ← ih, collect_succ]
      constructor
      · rintro ⟨results, h⟩
        obtain ⟨before, hBefore, hMore⟩ := exists_of_bind_eq_ok h
        obtain ⟨last, hLast, _⟩ := exists_of_bind_eq_ok hMore
        exact ⟨⟨before, hBefore⟩, last, hLast⟩
      · rintro ⟨⟨before, hBefore⟩, last, hLast⟩
        exact ⟨before ++ [last], by rw [hBefore, hLast]; rfl⟩

/-- The first step that fails decides, and all steps before it have their results. -/
theorem collect_eq_error_iff {step : Nat → Except ε α} {count : Nat} {failure : ε} :
    collect step count = .error failure ↔ ∃ place < count, step place = .error failure ∧
      ∀ before < place, ∃ result, step before = .ok result := by
  induction count with
  | zero => simp [collect, collectFrom, pure, Except.pure]
  | succ count ih =>
      rw [Nat.exists_lt_succ_right, ← ih, ← exists_collect_iff, collect_succ]
      cases collect step count with
      | error early => simp [bind, Except.bind]
      | ok before => cases step count <;> simp [bind, Except.bind, pure, Except.pure]

theorem mapError_eq_ok_iff {wrap : ε → β} {computed : Except ε α} {result : α} :
    computed.mapError wrap = .ok result ↔ computed = .ok result := by
  constructor
  · intro h
    cases computed with
    | error e => cases h
    | ok found =>
        cases h
        rfl
  · rintro rfl
    rfl

theorem mapError_eq_error_iff {wrap : ε → β} {computed : Except ε α} {wrapped : β} :
    computed.mapError wrap = .error wrapped ↔
      ∃ failure, computed = .error failure ∧ wrap failure = wrapped := by
  constructor
  · intro h
    cases computed with
    | error failure =>
        cases h
        exact ⟨failure, rfl, rfl⟩
    | ok result => cases h
  · rintro ⟨failure, rfl, rfl⟩
    rfl

theorem Failure.ofError_eq_ok {computed : Except ε α} {result : α}
    (h : ofError computed = .ok result) : computed = .ok result :=
  mapError_eq_ok_iff.mp h

end StoreBench
