import StoreBench.Proofs.Command.Completion

/-! Commands that fail. What an action fails with, step by step: the steps in front of the one that
fails have completed, and those behind it are not taken. -/
namespace StoreBench

variable {ε ρ α β : Type}

/-- On this machine the action fails like this, and it leaves the machine like that. -/
def Fails (action : ExceptT ε (StateM World) α) (before : World) (failure : ε) (after : World) :
    Prop :=
  action.run.run before = (.error failure, after)

namespace Fails

variable {before after : World} {action : ExceptT ε (StateM World) α} {failure : ε}

/-- The first step that fails decides, and the steps before it have completed. -/
theorem bind_iff {next : α → ExceptT ε (StateM World) β} :
    Fails (action >>= next) before failure after ↔
      Fails action before failure after ∨ ∃ result middle,
        Completes action before result middle ∧ Fails (next result) middle failure after := by
  rw [Fails, run_bind]
  constructor
  · intro h
    rcases hRan : action.run.run before with ⟨early | result, middle⟩
    · rw [hRan] at h
      cases h
      exact .inl hRan
    · rw [hRan] at h
      exact .inr ⟨result, middle, hRan, h⟩
  · rintro (h | ⟨result, middle, hRan, h⟩)
    · rw [Fails] at h
      rw [h]
      rfl
    · rw [Completes] at hRan
      rw [hRan]
      exact h

theorem first {next : α → ExceptT ε (StateM World) β} (h : Fails action before failure after) :
    Fails (action >>= next) before failure after :=
  bind_iff.mpr (.inl h)

theorem later {next : α → ExceptT ε (StateM World) β} {result : α} {middle : World}
    (hFirst : Completes action before result middle)
    (h : Fails (next result) middle failure after) :
    Fails (action >>= next) before failure after :=
  bind_iff.mpr (.inr ⟨result, middle, hFirst, h⟩)

theorem adapt_iff {wrap : ε → ρ} {wrapped : ρ} :
    Fails (action.adapt wrap) before wrapped after ↔
      ∃ failure, Fails action before failure after ∧ wrap failure = wrapped := by
  have hRan : (action.adapt wrap).run.run before =
      ((action.run.run before).1.mapError wrap, (action.run.run before).2) := rfl
  rw [Fails, hRan]
  constructor
  · intro h
    rcases hEnded : action.run.run before with ⟨failure | result, middle⟩
    · rw [hEnded] at h
      cases h
      exact ⟨failure, hEnded, rfl⟩
    · rw [hEnded] at h
      cases h
  · rintro ⟨failure, h, rfl⟩
    rw [Fails] at h
    rw [h]
    rfl

theorem stage_iff {wrap : ε → CommandError} {wrapped : Failure CommandError} :
    Fails (CommandT.stage wrap action) before wrapped after ↔
      ∃ failure, Fails action before failure after ∧ .error (wrap failure) = wrapped :=
  adapt_iff

theorem computed_iff {computed : Except ε α} :
    Fails (ExceptT.mk (pure computed)) before failure after ↔
      computed = .error failure ∧ before = after := by
  have hRan : (ExceptT.mk (pure computed) : ExceptT ε (StateM World) α).run.run before =
      (computed, before) := rfl
  rw [Fails, hRan, Prod.mk.injEq]

theorem not_streamOr {seed : Option UInt64} {failure : Failure CommandError} :
    ¬Fails (streamOr seed : CommandT (StateM World) WordStream) before failure after := by
  intro h
  cases seed <;> cases h

theorem check_iff {wrap : ε → CommandError} {computed : Except ε α}
    {wrapped : Failure CommandError} :
    Fails (CommandT.check wrap computed) before wrapped after ↔
      (∃ error, computed = .error error ∧ .error (wrap error) = wrapped) ∧ before = after := by
  rw [CommandT.check, stage_iff]
  constructor
  · rintro ⟨error, h, hWrapped⟩
    obtain ⟨hError, hSame⟩ := computed_iff.mp h
    exact ⟨⟨error, hError, hWrapped⟩, hSame⟩
  · rintro ⟨⟨error, hError, hWrapped⟩, hSame⟩
    exact ⟨error, computed_iff.mpr ⟨hError, hSame⟩, hWrapped⟩

theorem sound_iff {computed : Except Fault α} {wrapped : Failure CommandError} :
    Fails (CommandT.sound computed) before wrapped after ↔
      (∃ fault, computed = .error fault ∧ .fault fault = wrapped) ∧ before = after := by
  rw [CommandT.sound, computed_iff, Failure.ofFault, mapError_eq_error_iff]

theorem failure_iff {wrap : ε → CommandError} {computed : Except (Failure ε) α}
    {wrapped : Failure CommandError} :
    Fails (CommandT.failure wrap computed) before wrapped after ↔
      (∃ failure, computed = .error failure ∧ failure.map wrap = wrapped) ∧ before = after := by
  rw [CommandT.failure, computed_iff, mapError_eq_error_iff]

end Fails

end StoreBench
