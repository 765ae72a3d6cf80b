import StoreBench.Command.Perform
import StoreBench.Proofs.Files.Tree

/-! Commands that complete. Whether one does, and what it leaves behind, is said of the machine that
is a value, step by step: a command completes if all its steps do, each on the machine that the
steps before have left. -/
namespace StoreBench

variable {ε ρ α β : Type} {before after : World} {action : ExceptT ε (StateM World) α} {result : α}

/-- The second step goes on where the first one has come to, or not at all. -/
theorem run_bind (action : ExceptT ε (StateM World) α) (next : α → ExceptT ε (StateM World) β)
    (before : World) : (action >>= next).run.run before =
      (ExceptT.bindCont next (action.run.run before).1).run (action.run.run before).2 := rfl

/-- On this machine the action comes to this result, and it leaves the machine like that. -/
def Completes (action : ExceptT ε (StateM World) α) (before : World) (result : α)
    (after : World) : Prop :=
  action.run.run before = (.ok result, after)

namespace Completes

section Steps

theorem unique {other : α} {elsewhere : World} (h : Completes action before result after)
    (hOther : Completes action before other elsewhere) : result = other ∧ after = elsewhere := by
  have hSame := h.symm.trans hOther
  rw [Prod.mk.injEq, Except.ok.injEq] at hSame
  exact hSame

theorem bind_iff {next : α → ExceptT ε (StateM World) β} {last : β} :
    Completes (action >>= next) before last after ↔
      ∃ result middle, Completes action before result middle ∧
        Completes (next result) middle last after := by
  rw [Completes, StoreBench.run_bind]
  constructor
  · intro h
    rcases hRan : action.run.run before with ⟨_ | middleResult, middle⟩
    · rw [hRan] at h
      cases h
    · rw [hRan] at h
      exact ⟨middleResult, middle, hRan, h⟩
  · rintro ⟨middleResult, middle, hRan, h⟩
    rw [Completes] at hRan
    rw [hRan]
    exact h

theorem bind {next : α → ExceptT ε (StateM World) β} {middle : World} {last : β}
    (h : Completes action before result middle)
    (hNext : Completes (next result) middle last after) :
    Completes (action >>= next) before last after :=
  bind_iff.mpr ⟨result, middle, h, hNext⟩

/-- Behind a step that completes, the rest decides. -/
theorem run_bind {middle : World} (h : Completes action before result middle)
    (next : α → ExceptT ε (StateM World) β) :
    (action >>= next).run.run before = (next result).run.run middle := by
  rw [Completes] at h
  rw [StoreBench.run_bind, h]
  rfl

theorem pure_iff {value : α} :
    Completes (pure value : ExceptT ε (StateM World) α) before result after ↔
      value = result ∧ before = after := by
  have hRan : (pure value : ExceptT ε (StateM World) α).run.run before = (.ok value, before) := rfl
  rw [Completes, hRan, Prod.mk.injEq, Except.ok.injEq]

theorem map_iff {change : α → β} {last : β} :
    Completes (change <$> action) before last after ↔
      ∃ result, Completes action before result after ∧ change result = last := by
  rw [map_eq_pure_bind, bind_iff]
  simp only [pure_iff]
  constructor
  · rintro ⟨found, middle, hRan, hChanged, rfl⟩
    exact ⟨found, hRan, hChanged⟩
  · rintro ⟨found, hRan, hChanged⟩
    exact ⟨found, after, hRan, hChanged, rfl⟩

theorem not_throw {failure : ε} :
    ¬Completes (throw failure : ExceptT ε (StateM World) α) before result after := by
  intro h
  cases h

/-- What is computed leaves the machine alone. -/
theorem computed_iff {computed : Except ε α} :
    Completes (ExceptT.mk (pure computed)) before result after ↔
      computed = .ok result ∧ before = after := by
  have hRan : (ExceptT.mk (pure computed) : ExceptT ε (StateM World) α).run.run before =
      (computed, before) := rfl
  rw [Completes, hRan, Prod.mk.injEq]

theorem lift_iff {step : StateM World α} :
    Completes (ExceptT.lift step : ExceptT ε (StateM World) α) before result after ↔
      step.run before = (result, after) := by
  have hRan : (ExceptT.lift step : ExceptT ε (StateM World) α).run.run before =
      (.ok (step.run before).1, (step.run before).2) := rfl
  rw [Completes, hRan, Prod.mk.injEq, Except.ok.injEq, ← Prod.mk.injEq]
  exact Iff.rfl

theorem adapt_iff {wrap : ε → ρ} :
    Completes (action.adapt wrap) before result after ↔ Completes action before result after := by
  have hRan : (action.adapt wrap).run.run before =
      ((action.run.run before).1.mapError wrap, (action.run.run before).2) := rfl
  rw [Completes, Completes, hRan]
  rcases action.run.run before with ⟨ended, middle⟩
  rw [Prod.mk.injEq, Prod.mk.injEq, mapError_eq_ok_iff]

theorem stage_iff {wrap : ε → CommandError} :
    Completes (CommandT.stage wrap action) before result after ↔
      Completes action before result after :=
  adapt_iff

theorem check_iff {wrap : ε → CommandError} {computed : Except ε α} :
    Completes (CommandT.check wrap computed) before result after ↔
      computed = .ok result ∧ before = after :=
  stage_iff.trans computed_iff

theorem failure_iff {wrap : ε → CommandError} {computed : Except (Failure ε) α} :
    Completes (CommandT.failure wrap computed) before result after ↔
      computed = .ok result ∧ before = after := by
  rw [CommandT.failure, computed_iff, mapError_eq_ok_iff]

theorem sound_iff {computed : Except Fault α} :
    Completes (CommandT.sound computed) before result after ↔
      computed = .ok result ∧ before = after := by
  rw [CommandT.sound, computed_iff, Failure.ofFault, mapError_eq_ok_iff]

end Steps

section Files

variable {path : String} {content : Bytes}

theorem readFile_iff {answer : Except ReadFault Bytes} :
    Completes (ExceptT.lift (Machine.readFile path) : ExceptT ε (StateM World) _) before answer
        after ↔
      before.files.read (.ofText path) = answer ∧ before = after := by
  have hRan : (Machine.readFile path : StateM World _).run before =
      (before.files.read (.ofText path), before) := rfl
  rw [lift_iff, hRan, Prod.mk.injEq]

theorem loadDocument_iff : Completes (loadDocument path) before content after ↔
    before.files.read (.ofText path) = .ok content ∧ before = after := by
  rw [loadDocument, bind_iff]
  constructor
  · rintro ⟨answer, middle, hRead, hMatch⟩
    obtain ⟨hAnswer, rfl⟩ := readFile_iff.mp hRead
    split at hMatch
    · exact absurd hMatch not_throw
    · exact absurd hMatch not_throw
    · obtain ⟨rfl, hSame⟩ := pure_iff.mp hMatch
      exact ⟨hAnswer, hSame⟩
  · rintro ⟨hRead, rfl⟩
    exact ⟨.ok content, before, readFile_iff.mpr ⟨hRead, rfl⟩, pure_iff.mpr ⟨rfl, rfl⟩⟩

theorem loadSamples_iff {samples : SampleSet} :
    Completes (SampleSet.load path) before samples after ↔
      (∃ content, before.files.read (.ofText path) = .ok content ∧
        SampleSet.parse content = .ok samples) ∧ before = after := by
  rw [SampleSet.load, bind_iff]
  constructor
  · rintro ⟨answer, middle, hRead, hMatch⟩
    obtain ⟨hAnswer, rfl⟩ := readFile_iff.mp hRead
    split at hMatch
    · exact absurd hMatch not_throw
    · rename_i content
      obtain ⟨hParse, hSame⟩ := computed_iff.mp hMatch
      exact ⟨⟨content, hAnswer, hParse⟩, hSame⟩
  · rintro ⟨⟨content, hRead, hParse⟩, rfl⟩
    exact ⟨.ok content, before, readFile_iff.mpr ⟨hRead, rfl⟩, computed_iff.mpr ⟨hParse, rfl⟩⟩

/-- A document that is loaded and parsed leaves the machine alone. -/
theorem parsed_iff {parse : Bytes → Except ParseError α} {value : α} :
    Completes (do ExceptT.mk (pure (parse (← loadDocument path)))) before value after ↔
      (∃ content, before.files.read (.ofText path) = .ok content ∧ parse content = .ok value) ∧
        before = after := by
  rw [bind_iff]
  constructor
  · rintro ⟨content, middle, hLoad, hParse⟩
    obtain ⟨hRead, rfl⟩ := loadDocument_iff.mp hLoad
    obtain ⟨hParsed, hSame⟩ := computed_iff.mp hParse
    exact ⟨⟨content, hRead, hParsed⟩, hSame⟩
  · rintro ⟨⟨content, hRead, hParsed⟩, rfl⟩
    exact ⟨content, before, loadDocument_iff.mpr ⟨hRead, rfl⟩, computed_iff.mpr ⟨hParsed, rfl⟩⟩

/-- Nothing but the log tells of warnings. -/
theorem warned (entries : List β) (wording : β → String) (before : World) :
    Completes (forIn entries PUnit.unit fun entry _ => do
      ExceptT.lift (Machine.warn (wording entry))
      pure (ForInStep.yield PUnit.unit) : ExceptT ε (StateM World) PUnit) before PUnit.unit
        { before with log := (entries.map wording).reverse ++ before.log } := by
  induction entries generalizing before with
  | nil => exact pure_iff.mpr ⟨rfl, rfl⟩
  | cons entry rest ih =>
      rw [List.forIn_cons]
      have hRest := ih { before with log := wording entry :: before.log }
      have hFirst : Completes (do
          ExceptT.lift (Machine.warn (wording entry))
          pure (ForInStep.yield PUnit.unit) : ExceptT ε (StateM World) _) before
          (ForInStep.yield PUnit.unit) { before with log := wording entry :: before.log } :=
        bind (lift_iff.mpr rfl) (pure_iff.mpr ⟨rfl, rfl⟩)
      simp only [List.map_cons, List.reverse_cons, List.append_assoc, List.singleton_append]
      exact bind hFirst hRest

/-- Loading a table changes the log at most. -/
theorem loadTable_iff {table : ProfileTable} :
    Completes (ProfileTable.load path) before table after ↔
      ∃ content ignored, before.files.read (.ofText path) = .ok content ∧
        ProfileTable.parse content = (.ok table, ignored) ∧
        after = { before with
          log := (ignored.map UnknownOperation.message).reverse ++ before.log } := by
  rw [ProfileTable.load, bind_iff]
  constructor
  · rintro ⟨content, _, hLoad, hParse⟩
    obtain ⟨hRead, rfl⟩ := loadDocument_iff.mp hLoad
    rcases hParsed : ProfileTable.parse content with ⟨parsed, ignored⟩
    rw [hParsed] at hParse
    obtain ⟨_, warnedAfter, hWarned, hTable⟩ := bind_iff.mp hParse
    obtain ⟨rfl, rfl⟩ := computed_iff.mp hTable
    obtain ⟨_, rfl⟩ := hWarned.unique (warned ignored UnknownOperation.message before)
    exact ⟨content, ignored, hRead, hParsed, rfl⟩
  · rintro ⟨content, ignored, hRead, hParse, rfl⟩
    refine ⟨content, before, loadDocument_iff.mpr ⟨hRead, rfl⟩, ?_⟩
    rw [hParse]
    exact bind (warned ignored UnknownOperation.message before) (computed_iff.mpr ⟨rfl, rfl⟩)

theorem makeParents_iff :
    Completes (ExceptT.mk (Machine.makeParents path)) before () after ↔
      (before.files.makeParents (.ofText path)).1 = .ok () ∧
        { before with files := (before.files.makeParents (.ofText path)).2 } = after := by
  have hRan : (ExceptT.mk (Machine.makeParents path) : ExceptT _ (StateM World) _).run.run before =
      ((before.files.makeParents (.ofText path)).1,
        { before with files := (before.files.makeParents (.ofText path)).2 }) := rfl
  rw [Completes, hRan, Prod.mk.injEq]

theorem writeFile_iff :
    Completes (ExceptT.mk (Machine.writeFile path content)) before () after ↔
      ∃ files, before.files.write (.ofText path) content = .ok files ∧
        { before with files } = after := by
  rw [Completes]
  simp only [ExceptT.run, ExceptT.mk, StateT.run, Machine.writeFile]
  cases hWritten : before.files.write (.ofText path) content with
  | ok files =>
      simp only [Except.ok.injEq, exists_eq_left']
      rw [Prod.mk.injEq, and_iff_right rfl]
  | error fault =>
      simp only [reduceCtorEq, false_and, exists_false, iff_false]
      intro h
      cases h

theorem createFile_iff : Completes (createFile path content) before () after ↔
    (before.files.makeParents (.ofText path)).1 = .ok () ∧
      ∃ files,
        (before.files.makeParents (.ofText path)).2.write (.ofText path) content = .ok files ∧
        { before with files } = after := by
  rw [createFile, bind_iff]
  constructor
  · rintro ⟨_, middle, hMade, hWrite⟩
    obtain ⟨hOk, rfl⟩ := makeParents_iff.mp hMade
    obtain ⟨files, hWritten, rfl⟩ := writeFile_iff.mp hWrite
    exact ⟨hOk, files, hWritten, rfl⟩
  · rintro ⟨hOk, files, hWritten, rfl⟩
    exact ⟨(), _, makeParents_iff.mpr ⟨hOk, rfl⟩, writeFile_iff.mpr ⟨files, hWritten, rfl⟩⟩

theorem createFile_created (h : Completes (createFile path content) before () after) :
    before.files.Created (.ofText path) content after.files := by
  obtain ⟨_, files, hWritten, rfl⟩ := createFile_iff.mp h
  exact FileTree.created hWritten

end Files

end Completes

end StoreBench
