import StoreBench.Proofs.Workload.Generation
import StoreBench.Proofs.Workload.Seeds

/-! Transaction lengths. They are drawn from a stream of their own, in order, and nothing else is.
So a workload has the lengths that its seed and the bounds make, whatever profiles, operations and
positions were chosen beside them. -/
namespace StoreBench

namespace Generation

variable {α β γ δ : Type}

/-- The action takes from the stream of lengths what the draw takes from it, and `size` reads off
its result what was drawn. -/
def Measured (action : Generation α) (draw : Draw β) (size : α → β) : Prop :=
  ∀ before after result, action.run.run before = (.ok result, after) →
    draw.run before.lengths = (size result, after.lengths)

namespace Measured

variable {action : Generation α} {draw : Draw β} {size : α → β}

theorem pure {result : α} {value : β} (h : size result = value) :
    Measured (pure result) (pure value) size := by
  intro before after ended hRan
  cases hRan
  rw [← h]
  rfl

theorem throw {failure : Failure GenerateError} :
    Measured (throw failure : Generation α) draw size := by
  intro before after result hRan
  cases hRan

theorem bind {next : α → Generation γ} {further : β → Draw δ} {whole : γ → δ}
    (h : Measured action draw size)
    (hNext : ∀ result, Measured (next result) (further (size result)) whole) :
    Measured (action >>= next) (draw >>= further) whole := by
  intro before after result hRan
  obtain ⟨middle, between, hFirst, hRest⟩ := exists_ran_of_bind hRan
  change ((further (draw.run before.lengths).1).run (draw.run before.lengths).2) = _
  rw [h before between middle hFirst]
  exact hNext middle between after result hRest

/-- An action that draws no length may come first. -/
theorem after {first : Generation γ} {next : γ → Generation α}
    (hFirst : Measured first (Pure.pure ()) fun _ => ())
    (h : ∀ result, Measured (next result) draw size) : Measured (first >>= next) draw size := by
  have hBoth : Measured (first >>= next) (Pure.pure () >>= fun _ => draw) size := hFirst.bind h
  exact hBoth

/-- What follows the last length draws none. -/
theorem before {next : α → Generation γ} {whole : γ → β} (h : Measured action draw size)
    (hNext : ∀ result, Measured (next result) (Pure.pure (size result)) whole) :
    Measured (action >>= next) draw whole := by
  have hBoth : Measured (action >>= next) (draw >>= Pure.pure) whole := h.bind hNext
  rwa [bind_pure] at hBoth

theorem choose {draw : Draw α} : Measured (choose draw) (Pure.pure ()) fun _ => () := by
  intro before after result hRan
  cases hRan
  rfl

theorem chooseLength {draw : Draw Nat} : Measured (chooseLength draw) draw id := by
  intro before after result hRan
  cases hRan
  rfl

theorem reserve {count width : Nat} :
    Measured (reserve count width) (Pure.pure ()) fun _ => () := by
  intro before after result hRan
  cases congrArg Prod.snd hRan
  rfl

theorem note (entry : GenerationNote) : Measured (note entry) (Pure.pure ()) fun _ => () := by
  intro before after result hRan
  cases hRan
  rfl

/-- Step by step, the lengths that the steps draw. -/
theorem collect {step : Nat → Generation α} (h : ∀ place, Measured (step place) draw size)
    (count : Nat) :
    Measured (collect step count) (StoreBench.collect (fun _ => draw) count) (List.map size) := by
  induction count with
  | zero => exact Measured.pure rfl
  | succ count ih =>
      rw [collect_succ, collect_succ]
      exact ih.bind fun results => (h count).bind fun last => Measured.pure (by simp)

/-- Steps that draw no length draw none together, and their results are as many. -/
theorem collect_silent {step : Nat → Generation α}
    (h : ∀ place, Measured (step place) (Pure.pure ()) fun _ => ()) (count : Nat) :
    Measured (StoreBench.collect step count) (Pure.pure count) List.length := by
  induction count with
  | zero => exact Measured.pure rfl
  | succ count ih =>
      rw [collect_succ]
      have hMore (results : List α) :
          Measured (step count >>= fun last => Pure.pure (results ++ [last]))
            (Pure.pure (results.length + 1)) List.length :=
        (h count).after fun last => Measured.pure (by simp)
      have hBoth : Measured _ (Pure.pure count >>= fun before => Pure.pure (before + 1)) List.length :=
        ih.bind hMore
      exact hBoth

end Measured

variable {table : ProfileTable} {profile : Profile} {config : GenerationConfig} {samples : Nat}

theorem command_measured (samples : Nat) (profile : Profile) :
    Measured (command samples profile) (Pure.pure ()) fun _ => () := by
  apply Measured.choose.after
  intro draw
  cases profile.selectOperation draw with
  | none => exact Measured.throw
  | some operation =>
      dsimp only
      split
      · exact Measured.throw
      · exact Measured.choose.after fun index => Measured.pure rfl

theorem lengthBounds_global (hOff : config.profileLengths = false) (profile : Profile) :
    lengthBounds config profile = (config.lengthMin, config.lengthMax) := by
  simp only [lengthBounds, hOff]
  split <;> rfl

/-- The length of a transaction is what its draw from the stream of lengths comes to. -/
theorem transaction_measured (hOff : config.profileLengths = false) (place : Nat) :
    Measured (transaction table config samples place)
      (Draw.between config.lengthMin config.lengthMax) List.length := by
  apply Measured.choose.after
  intro draw
  cases table.select draw with
  | none => exact Measured.throw
  | some profile =>
      simp only [lengthBounds_global hOff]
      apply Measured.chooseLength.before
      intro length
      apply Measured.reserve.after
      intro _
      apply (Measured.collect_silent (fun _ => command_measured samples profile) length).before
      intro commands
      exact (Measured.note _).after fun _ => Measured.pure rfl

theorem workload_measured (hOff : config.profileLengths = false) :
    Measured (workload table config samples)
      (collect (fun _ => Draw.between config.lengthMin config.lengthMax) config.transactions)
      (List.map List.length) := by
  unfold workload
  split
  · exact Measured.throw
  · exact Measured.reserve.after fun _ => Measured.collect (transaction_measured hOff) _

/-- A workload has the lengths that its seed draws between the bounds, one after the other. -/
theorem map_length_of_generate (hOff : config.profileLengths = false) {seed : UInt64}
    {workload : Workload} (h : Workload.generate table config samples seed = .ok workload) :
    workload.map List.length =
      ((collect (fun _ => Draw.between config.lengthMin config.lengthMax) config.transactions).run
        (WordStream.ofSeed (lengthSeed seed))).1 := by
  rw [Workload.generate, Workload.generateFrom] at h
  rcases hRan : (Generation.workload table config samples).run.run (Generator.ofSeed seed) with
    ⟨ended, after⟩
  rw [hRan] at h
  cases h
  have hDrawn := workload_measured hOff _ _ _ hRan
  rw [Generator.lengths_ofSeed] at hDrawn
  rw [hDrawn]

/-- Two workloads of one seed have the same lengths, transaction by transaction, though they were
generated from different profiles and for sample data of different sizes. -/
theorem lengths_independent {config : GenerationConfig} (hOff : config.profileLengths = false)
    {seed : UInt64} {table other : ProfileTable} {samples positions : Nat}
    {workload second : Workload} (h : Workload.generate table config samples seed = .ok workload)
    (hSecond : Workload.generate other config positions seed = .ok second) :
    workload.map List.length = second.map List.length := by
  rw [map_length_of_generate hOff h, map_length_of_generate hOff hSecond]

/-- A table that only reads a single pair, and one that reads and writes a thousand and asks for a
length of its own. -/
theorem lengths_independent_two_tables :
    let percent (n : Nat) : Binary64 := .finite false (n * Binary64.one)
    let config : GenerationConfig := ⟨50, 1, 9, false⟩
    let reads : ProfileTable := [⟨"reads", percent 100, [(.get, percent 100)], 0, 0⟩]
    let mixed : ProfileTable :=
      [⟨"reads", percent 30, [(.get, percent 100)], 0, 0⟩,
       ⟨"writes", percent 70, [(.get, percent 50), (.put, percent 50)], 5, 5⟩]
    ∃ few many, Workload.generate reads config 1 7 = .ok few ∧
      Workload.generate mixed config 1000 7 = .ok many ∧
      few.map List.length = many.map List.length := by
  intro percent config reads mixed
  have hPercent (n : Nat) : (percent n).IsWhole := ⟨false, n, rfl⟩
  have hBounds : ¬(config.lengthMin < 1 ∨ config.lengthMax < config.lengthMin) := by decide
  have hReads : reads.Whole := by
    simp only [reads, ProfileTable.Whole, Profile.Whole, List.forall_mem_cons, hPercent]
    simp
  have hMixed : mixed.Whole := by
    simp only [mixed, ProfileTable.Whole, Profile.Whole, List.forall_mem_cons, hPercent]
    simp
  have hReadsValid : reads.validate = .ok () := by decide +kernel
  have hMixedValid : mixed.validate = .ok () := by decide +kernel
  obtain ⟨few, hFew⟩ : ∃ few, Workload.generate reads config 1 7 = .ok few :=
    exists_workload hReads hReadsValid hBounds (show 1 ≤ 1 by decide)
      (roomy_of_mem hReads hReadsValid (by decide) (by decide)) (.ofSeed 7)
  obtain ⟨many, hMany⟩ : ∃ many, Workload.generate mixed config 1000 7 = .ok many :=
    exists_workload hMixed hMixedValid hBounds (show 1 ≤ 1000 by decide)
      (roomy_of_mem hMixed hMixedValid (by decide) (by decide)) (.ofSeed 7)
  exact ⟨few, many, hFew, hMany, lengths_independent rfl hFew hMany⟩

end Generation

end StoreBench
