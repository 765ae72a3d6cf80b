import StoreBench.Proofs.Profile.Selection
import StoreBench.Proofs.Random.Draw
import StoreBench.Workload.Generation

/-! What is generated. Every action is given the results that it may have and the failures that it
may end in, whatever generator it runs on; a workload gets both from its transactions, and these
from their commands. -/
namespace StoreBench

namespace Generation

variable {α β : Type}

theorem run_bind (action : Generation α) (next : α → Generation β) (generator : Generator) :
    (action >>= next).run.run generator =
      match action.run.run generator with
      | (.ok result, later) => (next result).run.run later
      | (.error failure, later) => (.error failure, later) := by
  change ExceptT.bindCont next (action.run.run generator).1 (action.run.run generator).2 = _
  rcases action.run.run generator with ⟨_ | _, _⟩ <;> rfl

/-- An action that came to a result did so in every step. -/
theorem exists_ran_of_bind {action : Generation α} {next : α → Generation β}
    {before after : Generator} {result : β}
    (h : (action >>= next).run.run before = (.ok result, after)) :
    ∃ middle between, action.run.run before = (.ok middle, between) ∧
      (next middle).run.run between = (.ok result, after) := by
  rw [run_bind] at h
  rcases hRan : action.run.run before with ⟨_ | middle, between⟩
  · rw [hRan] at h
    cases h
  · rw [hRan] at h
    exact ⟨middle, between, rfl, h⟩

/-- From every generator the action comes to a result of this kind or fails in this way. -/
def Yields (action : Generation α) (made : α → Prop) (failed : Failure GenerateError → Prop) :
    Prop :=
  ∀ generator : Generator, match (action.run.run generator).1 with
    | .ok result => made result
    | .error failure => failed failure

namespace Yields

variable {action : Generation α} {made : α → Prop} {failed : Failure GenerateError → Prop}

theorem of_ok {generator : Generator} {result : α} (h : Yields action made failed)
    (hRan : (action.run.run generator).1 = .ok result) : made result := by
  have hEnded := h generator
  rwa [hRan] at hEnded

theorem of_error {generator : Generator} {failure : Failure GenerateError}
    (h : Yields action made failed) (hRan : (action.run.run generator).1 = .error failure) :
    failed failure := by
  have hEnded := h generator
  rwa [hRan] at hEnded

theorem pure {result : α} (h : made result) : Yields (pure result) made failed := fun _ => h

theorem throw {failure : Failure GenerateError} (h : failed failure) :
    Yields (throw failure : Generation α) made failed := fun _ => h

theorem bind {next : α → Generation β} {reached : β → Prop} (h : Yields action made failed)
    (hNext : ∀ result, made result → Yields (next result) reached failed) :
    Yields (action >>= next) reached failed := by
  intro generator
  have hFirst := h generator
  rw [run_bind]
  rcases hRan : action.run.run generator with ⟨_ | result, later⟩
  · rw [hRan] at hFirst
    exact hFirst
  · rw [hRan] at hFirst
    exact hNext result hFirst later

theorem weaken {more : α → Prop} {worse : Failure GenerateError → Prop}
    (h : Yields action made failed) (hMade : ∀ result, made result → more result)
    (hFailed : ∀ failure, failed failure → worse failure) : Yields action more worse := by
  intro generator
  have hEnded := h generator
  split at hEnded
  · exact hMade _ hEnded
  · exact hFailed _ hEnded

theorem choose {draw : Draw α} (h : draw.Within made) : Yields (choose draw) made failed :=
  fun generator => h generator.choices

theorem chooseLength {draw : Draw Nat} {made : Nat → Prop} (h : draw.Within made) :
    Yields (chooseLength draw) made failed :=
  fun generator => h generator.lengths

theorem reserve {count width : Nat} (h : memoryMax < count * width → failed (.fault .capacity)) :
    Yields (reserve count width) (fun _ => count * width ≤ memoryMax) failed := by
  intro generator
  have hRan : ((Generation.reserve count width).run.run generator).1 =
      Failure.ofFault (StoreBench.reserve count width) := rfl
  rw [hRan, StoreBench.reserve]
  by_cases hRoom : count * width ≤ memoryMax
  · rw [if_pos hRoom]
    exact hRoom
  · rw [if_neg hRoom]
    exact h (Nat.lt_of_not_le hRoom)

theorem note (entry : GenerationNote) : Yields (note entry) (fun _ => True) failed :=
  fun _ => trivial

/-- What every step does, all of them do. Where there is no step, nothing fails. -/
theorem collect {step : Nat → Generation α} {count : Nat}
    (h : 0 < count → ∀ place, Yields (step place) made failed) :
    Yields (collect step count) (fun results => results.length = count ∧ ∀ r ∈ results, made r)
      failed := by
  have hFrom (place : Nat) (done : List α) (hDone : ∀ r ∈ done, made r) :
      Yields (collectFrom step place done count)
        (fun results => results.length = done.length + count ∧ ∀ r ∈ results, made r) failed := by
    induction count generalizing place done with
    | zero => exact .pure ⟨List.length_reverse, by simpa using hDone⟩
    | succ count ih =>
        refine (h (Nat.succ_pos count) place).bind fun result hMade => ?_
        have hMore := ih (fun _ => h (Nat.succ_pos count)) (place + 1) (result :: done)
          (List.forall_mem_cons.mpr ⟨hMade, hDone⟩)
        refine hMore.weaken ?_ fun _ hFailed => hFailed
        intro results hResults
        exact ⟨by simpa [Nat.add_comm, Nat.add_left_comm] using hResults.1, hResults.2⟩
  simpa [StoreBench.collect] using hFrom 0 [] (by simp)

end Yields

end Generation

section Shapes

/-- The bounds that a transaction of the profile is to keep: its own, where they are asked for and
usable. -/
def Profile.KeepsLength (profile : Profile) (config : GenerationConfig) (length : Nat) : Prop :=
  if config.profileLengths = true ∧ 1 ≤ profile.lengthMin ∧ profile.lengthMin ≤ profile.lengthMax
    then profile.lengthMin ≤ length ∧ length ≤ profile.lengthMax
    else config.lengthMin ≤ length ∧ length ≤ config.lengthMax

/-- The profile has drawn the transaction, for sample data of this size. -/
structure Profile.Draws (profile : Profile) (config : GenerationConfig) (samples : Nat)
    (tx : Transaction) : Prop where
  operations : ∀ command ∈ tx, ∃ draw, IsDraw draw ∧
    profile.selectOperation draw = some command.operation
  positions : ∀ command ∈ tx, command.index < samples
  nonempty : 1 ≤ tx.length
  length : profile.KeepsLength config tx.length

/-- The transaction can have come from this profile, for sample data of this size. -/
structure Profile.Makes (profile : Profile) (config : GenerationConfig) (samples : Nat)
    (tx : Transaction) : Prop where
  selectable : profile.weight.IsPositive
  operations : ∀ command ∈ tx, ∃ weight, (command.operation, weight) ∈ profile.operations ∧
    weight.IsPositive
  positions : ∀ command ∈ tx, command.index < samples
  length : profile.KeepsLength config tx.length

end Shapes

namespace Generation

/-- A draw that selects the profile. -/
def Selectable (table : ProfileTable) (profile : Profile) : Prop :=
  ∃ draw, IsDraw draw ∧ table.select draw = some profile

/-- Memory has room for the largest workload that can be drawn. -/
def Roomy (table : ProfileTable) (config : GenerationConfig) : Prop :=
  config.transactions * Transaction.width ≤ memoryMax ∧
    ∀ profile, Selectable table profile →
      (lengthBounds config profile).2 * Command.width ≤ memoryMax

/-- The ways in which generating can fail, each with its cause. -/
inductive Fails (table : ProfileTable) (config : GenerationConfig) (samples : Nat) :
    Failure GenerateError → Prop where
  | bounds (h : config.lengthMin < 1 ∨ config.lengthMax < config.lengthMin) :
      Fails table config samples
        (.error (.invalidLengthBounds config.lengthMin config.lengthMax))
  | room (h : ¬Roomy table config) : Fails table config samples (.fault .capacity)
  | noProfile {draw : Nat} (hDraw : IsDraw draw) (h : table.select draw = none) :
      Fails table config samples (.error (.noMatchingProfile draw))
  | noOperation {profile : Profile} {draw : Nat} (hProfile : Selectable table profile)
      (hDraw : IsDraw draw) (h : profile.selectOperation draw = none) :
      Fails table config samples (.error (.noMatchingOperation profile.name draw))
  | noSamples (h : samples = 0) (hSome : 1 ≤ config.transactions) :
      Fails table config samples (.error .emptySampleSet)

variable {table : ProfileTable} {profile : Profile} {config : GenerationConfig} {samples : Nat}

theorem command_yields (hProfile : Selectable table profile) (hSome : 1 ≤ config.transactions) :
    Yields (command samples profile) (fun command => command.index < samples ∧
      ∃ draw, IsDraw draw ∧ profile.selectOperation draw = some command.operation)
      (Fails table config samples) := by
  refine Yields.bind (.choose (Draw.oneTo_within (by decide))) fun draw hDraw => ?_
  cases hSelected : profile.selectOperation draw with
  | none => exact .throw (.noOperation hProfile hDraw hSelected)
  | some operation =>
      dsimp only
      by_cases hEmpty : samples = 0
      · rw [if_pos hEmpty]
        exact .throw (.noSamples hEmpty hSome)
      · rw [if_neg hEmpty]
        refine Yields.bind (.choose (Draw.position_within (by omega))) fun index hIndex => ?_
        exact .pure ⟨hIndex, draw, hDraw, hSelected⟩

/-- The bounds of a transaction are in order, and they are the ones that it is to keep. -/
theorem lengthBounds_usable (hBounds : 1 ≤ config.lengthMin ∧ config.lengthMin ≤ config.lengthMax)
    (profile : Profile) :
    let bounds := lengthBounds config profile
    1 ≤ bounds.1 ∧ bounds.1 ≤ bounds.2 ∧
      ∀ length, bounds.1 ≤ length → length ≤ bounds.2 → profile.KeepsLength config length := by
  intro bounds
  by_cases hOwn : config.profileLengths = true ∧ 1 ≤ profile.lengthMin ∧
    profile.lengthMin ≤ profile.lengthMax
  · have hBoundsOwn : bounds = (profile.lengthMin, profile.lengthMax) := by
      simp [bounds, lengthBounds, Profile.lengthBounds?, hOwn]
    rw [hBoundsOwn]
    refine ⟨hOwn.2.1, hOwn.2.2, fun length hLow hHigh => ?_⟩
    rw [Profile.KeepsLength, if_pos hOwn]
    exact ⟨hLow, hHigh⟩
  · have hBoundsGlobal : bounds = (config.lengthMin, config.lengthMax) := by
      simp only [bounds, lengthBounds, Profile.lengthBounds?]
      split
      · rename_i found hFound
        rw [if_neg]
        intro hAsked
        split at hFound
        · exact hOwn ⟨hAsked, ‹_›⟩
        · cases hFound
      · rfl
    rw [hBoundsGlobal]
    refine ⟨hBounds.1, hBounds.2, fun length hLow hHigh => ?_⟩
    rw [Profile.KeepsLength, if_neg hOwn]
    exact ⟨hLow, hHigh⟩

/-- A transaction has a length that its profile is to keep, and as many commands of that profile. -/
theorem transaction_yields
    (hBounds : 1 ≤ config.lengthMin ∧ config.lengthMin ≤ config.lengthMax)
    (hSome : 1 ≤ config.transactions) (place : Nat) :
    Yields (transaction table config samples place) (fun tx =>
      tx.length * Command.width ≤ memoryMax ∧
      ∃ profile, Selectable table profile ∧ profile.Draws config samples tx)
      (Fails table config samples) := by
  refine Yields.bind (.choose (Draw.oneTo_within (by decide))) fun draw hDraw => ?_
  cases hSelected : table.select draw with
  | none => exact .throw (.noProfile hDraw hSelected)
  | some profile =>
      have hProfile : Selectable table profile := ⟨draw, hDraw, hSelected⟩
      obtain ⟨hOne, hOrder, hKeeps⟩ := lengthBounds_usable hBounds profile
      refine Yields.bind (.chooseLength (Draw.between_within hOrder)) fun length hLength => ?_
      have hFull : memoryMax < length * Command.width → ¬Roomy table config := by
        intro hOver hRoomy
        have hMost := hRoomy.2 profile hProfile
        have hWidth := Nat.mul_le_mul_right Command.width hLength.2
        omega
      refine Yields.bind (.reserve fun hOver => .room (hFull hOver)) fun _ hRoom => ?_
      have hCommand (_ : Nat) : Yields (command samples profile) _ (Fails table config samples) :=
        command_yields hProfile hSome
      refine Yields.bind (.collect fun _ => hCommand) fun commands hMade => ?_
      obtain ⟨hCount, hEach⟩ := hMade
      refine Yields.bind (.note _) fun _ _ => .pure ?_
      rw [← hCount] at hLength hRoom
      refine ⟨hRoom, profile, hProfile, ?_⟩
      exact {
        operations := fun command hCommand => (hEach command hCommand).2
        positions := fun command hCommand => (hEach command hCommand).1
        nonempty := Nat.le_trans hOne hLength.1
        length := hKeeps commands.length hLength.1 hLength.2 }

/-- A workload has as many transactions as were asked for, each drawn by a profile of the table. -/
theorem workload_yields (table : ProfileTable) (config : GenerationConfig) (samples : Nat) :
    Yields (workload table config samples) (fun workload =>
        workload.length = config.transactions ∧
        config.transactions * Transaction.width ≤ memoryMax ∧
        ∀ tx ∈ workload, tx.length * Command.width ≤ memoryMax ∧
          ∃ profile, Selectable table profile ∧ profile.Draws config samples tx)
      (Fails table config samples) := by
  unfold workload
  by_cases hBounds : config.lengthMin < 1 ∨ config.lengthMax < config.lengthMin
  · rw [if_pos hBounds]
    exact .throw (.bounds hBounds)
  · rw [if_neg hBounds]
    refine Yields.bind (.reserve fun hOver => .room fun hRoomy => ?_) fun _ hRoom => ?_
    · exact absurd hRoomy.1 (Nat.not_le_of_lt hOver)
    have hUsable : 1 ≤ config.lengthMin ∧ config.lengthMin ≤ config.lengthMax := by omega
    have hSteps (hSome : 0 < config.transactions) (place : Nat) :
        Yields (transaction table config samples place) _ (Fails table config samples) :=
      transaction_yields hUsable hSome place
    have hAll := Yields.collect hSteps
    exact hAll.weaken (fun workload hMade => ⟨hMade.1, hRoom, hMade.2⟩) fun _ h => h

theorem workload_bounds (hBounds : config.lengthMin < 1 ∨ config.lengthMax < config.lengthMin)
    (generator : Generator) :
    ((workload table config samples).run.run generator).1 =
      .error (.error (.invalidLengthBounds config.lengthMin config.lengthMax)) := by
  unfold workload
  rw [if_pos hBounds]
  rfl

section ValidTables

variable (hWhole : table.Whole) (hValid : table.validate = .ok ())
include hWhole hValid

theorem Selectable.mem (h : Selectable table profile) :
    profile ∈ table ∧ profile.weight.IsPositive := by
  obtain ⟨draw, hDraw, hSelected⟩ := h
  obtain ⟨found, hMem, hFound, hPositive⟩ := ProfileTable.exists_select hWhole hValid hDraw
  cases hFound.symm.trans hSelected
  exact ⟨hMem, hPositive⟩

theorem Selectable.exists_selectOperation (h : Selectable table profile) {draw : Nat}
    (hDraw : IsDraw draw) :
    ∃ operation weight, profile.selectOperation draw = some operation ∧
      (operation, weight) ∈ profile.operations ∧ weight.IsPositive := by
  have hMem := (h.mem hWhole hValid).1
  exact Profile.exists_selectOperation (hWhole profile hMem)
    ((ProfileTable.validate_eq_ok_iff.mp hValid).2.1 profile hMem) hDraw

/-- Memory that holds the longest transaction of every profile holds all that can be drawn. -/
theorem roomy_of_mem (hTransactions : config.transactions * Transaction.width ≤ memoryMax)
    (hLengths : ∀ profile ∈ table, (lengthBounds config profile).2 * Command.width ≤ memoryMax) :
    Roomy table config :=
  ⟨hTransactions, fun profile hProfile => hLengths profile (hProfile.mem hWhole hValid).1⟩

/-- What is drawn from a table of whole weights that was validated is made of weights above zero. -/
theorem makes_of_draws (hProfile : Selectable table profile) {tx : Transaction}
    (hDraws : profile.Draws config samples tx) :
    profile ∈ table ∧ profile.Makes config samples tx := by
  obtain ⟨hMem, hPositive⟩ := hProfile.mem hWhole hValid
  refine ⟨hMem, hPositive, ?_, hDraws.positions, hDraws.length⟩
  intro command hCommand
  obtain ⟨draw, hDraw, hOperation⟩ := hDraws.operations command hCommand
  obtain ⟨operation, weight, hTaken, hEntry, hWeight⟩ :=
    hProfile.exists_selectOperation hWhole hValid hDraw
  cases hTaken.symm.trans hOperation
  exact ⟨weight, hEntry, hWeight⟩

/-- A table of whole weights that was validated fails for want of pairs or of room alone, once the
bounds are in order. -/
theorem Fails.of_valid {failure : Failure GenerateError} (h : Fails table config samples failure)
    (hBounds : ¬(config.lengthMin < 1 ∨ config.lengthMax < config.lengthMin)) :
    failure = .fault .capacity ∧ ¬Roomy table config ∨
      failure = .error .emptySampleSet ∧ samples = 0 ∧ 1 ≤ config.transactions := by
  cases h with
  | bounds hInvalid => exact absurd hInvalid hBounds
  | room hFull => exact .inl ⟨rfl, hFull⟩
  | noSamples hEmpty hSome => exact .inr ⟨rfl, hEmpty, hSome⟩
  | noProfile hDraw hNone =>
      obtain ⟨_, _, hSelected, _⟩ := ProfileTable.exists_select hWhole hValid hDraw
      cases hNone.symm.trans hSelected
  | noOperation hProfile hDraw hNone =>
      obtain ⟨_, _, hOperation, _⟩ := hProfile.exists_selectOperation hWhole hValid hDraw
      cases hNone.symm.trans hOperation

end ValidTables

/-- Memory that could hold the largest workload holds the one that is drawn. -/
theorem ne_capacity_of_roomy (hRoomy : Roomy table config) (generator : Generator) :
    ((workload table config samples).run.run generator).1 ≠ .error (.fault .capacity) := by
  intro hOutcome
  cases (workload_yields table config samples).of_error hOutcome with
  | room hFull => exact hFull hRoomy

/-- Such a table makes a workload with every generator, if there are pairs to be drawn. -/
theorem exists_workload (hWhole : table.Whole) (hValid : table.validate = .ok ())
    (hBounds : ¬(config.lengthMin < 1 ∨ config.lengthMax < config.lengthMin))
    (hSome : 1 ≤ samples) (hRoomy : Roomy table config) (generator : Generator) :
    ∃ workload, Workload.generateFrom table config samples generator = .ok workload := by
  rw [Workload.generateFrom]
  cases hOutcome : ((workload table config samples).run.run generator).1 with
  | ok workload => exact ⟨workload, rfl⟩
  | error failure =>
      have hFails := (workload_yields table config samples).of_error hOutcome
      rcases hFails.of_valid hWhole hValid hBounds with ⟨_, hFull⟩ | ⟨_, hEmpty, _⟩
      · exact absurd hRoomy hFull
      · omega

/-- A table of whole weights that was validated generates what it is asked for. The bounds are
looked at first, then there has to be a pair for the first position; and that is all that can go
wrong, as long as memory has room. Any generator will do, a fresh one of some seed or not. -/
theorem generation_shape (table : ProfileTable) (config : GenerationConfig) (samples : Nat)
    (generator : Generator) (hWhole : table.Whole) (hValid : table.validate = .ok ())
    (hRoom : ((workload table config samples).run.run generator).1 ≠ .error (.fault .capacity)) :
    let outcome := ((workload table config samples).run.run generator).1
    if config.lengthMin < 1 ∨ config.lengthMax < config.lengthMin then
      outcome = .error (.error (.invalidLengthBounds config.lengthMin config.lengthMax))
    else if samples = 0 ∧ 1 ≤ config.transactions then
      outcome = .error (.error .emptySampleSet)
    else
      ∃ workload, outcome = .ok workload ∧ workload.length = config.transactions ∧
        ∀ tx ∈ workload, ∃ profile ∈ table, profile.Makes config samples tx := by
  intro outcome
  by_cases hBounds : config.lengthMin < 1 ∨ config.lengthMax < config.lengthMin
  · rw [if_pos hBounds]
    exact workload_bounds hBounds generator
  rw [if_neg hBounds]
  have hYields := workload_yields table config samples
  cases hOutcome : outcome with
  | error failure =>
      rcases (hYields.of_error hOutcome).of_valid hWhole hValid hBounds with ⟨rfl, _⟩ | ⟨rfl, hEmpty⟩
      · exact absurd hOutcome hRoom
      · rw [if_pos hEmpty]
  | ok workload =>
      obtain ⟨hLength, _, hDrawn⟩ := hYields.of_ok hOutcome
      -- A position that was drawn is the position of a pair.
      have hSome : ¬(samples = 0 ∧ 1 ≤ config.transactions) := by
        rintro ⟨rfl, hAsked⟩
        obtain ⟨tx, hTx⟩ := List.exists_mem_of_length_pos (hLength ▸ hAsked)
        obtain ⟨_, profile, _, hDraws⟩ := hDrawn tx hTx
        obtain ⟨command, hCommand⟩ := List.exists_mem_of_length_pos hDraws.nonempty
        exact absurd (hDraws.positions command hCommand) (Nat.not_lt_zero _)
      rw [if_neg hSome]
      refine ⟨workload, rfl, hLength, fun tx hTx => ?_⟩
      obtain ⟨_, profile, hProfile, hDraws⟩ := hDrawn tx hTx
      exact ⟨profile, makes_of_draws hWhole hValid hProfile hDraws⟩

/-- One profile is never selected, for its weight is a negative zero. Transactions of the other one
have the length that it asks for, and positions of both pairs. -/
theorem generation_shape_own_length :
    let percent (n : Nat) : Binary64 := .finite false (n * Binary64.one)
    let table : ProfileTable :=
      [⟨"idle", .finite true 0, [(.get, percent 100)], 1, 1⟩,
       ⟨"mixed", percent 100, [(.get, percent 30), (.put, percent 70)], 3, 3⟩]
    ∃ workload, Workload.generate table ⟨4, 2, 64, true⟩ 2 7 = .ok workload ∧
      workload.length = 4 ∧ ∀ tx ∈ workload, tx.length = 3 := by
  intro percent table
  have hPercent (n : Nat) : (percent n).IsWhole := ⟨false, n, rfl⟩
  have hZero : (Binary64.finite true 0).IsWhole := ⟨true, 0, by simp⟩
  have hWhole : table.Whole := by
    simp only [table, ProfileTable.Whole, Profile.Whole, List.forall_mem_cons, hPercent, hZero]
    simp
  have hValid : table.validate = .ok () := by decide +kernel
  have hRoomy : Roomy table ⟨4, 2, 64, true⟩ := by
    refine ⟨by decide, fun profile hProfile => ?_⟩
    have hLengths : ∀ profile ∈ table,
        (lengthBounds ⟨4, 2, 64, true⟩ profile).2 * Command.width ≤ memoryMax := by decide
    exact hLengths profile (hProfile.mem hWhole hValid).1
  have hShape := generation_shape table ⟨4, 2, 64, true⟩ 2 (Generator.ofSeed 7) hWhole hValid
    (ne_capacity_of_roomy hRoomy _)
  obtain ⟨workload, hOutcome, hLength, hMade⟩ := hShape
  rw [Workload.generate, Workload.generateFrom]
  refine ⟨workload, hOutcome, hLength, fun tx hTx => ?_⟩
  obtain ⟨profile, hProfile, hMakes⟩ := hMade tx hTx
  have hKeeps := hMakes.length
  rcases List.mem_pair.mp hProfile with rfl | rfl
  · exact absurd hMakes.selectable (by decide +kernel)
  · rw [Profile.KeepsLength, if_pos (by decide)] at hKeeps
    exact Nat.le_antisymm hKeeps.2 hKeeps.1

end Generation

end StoreBench
