import StoreBench.Proofs.Workload.Generation

/-! Generating in pieces. A generator carries on where it stopped: what it makes of a transaction
depends on its streams, and neither on how many transactions were asked for nor on the place of
this one among them. So a shorter workload is the beginning of a longer one, and the workloads of
several calls, joined, are the workload of a single call. -/
namespace StoreBench

/-- The generators will draw the same, whatever they have noted. -/
def Generator.Agrees (a b : Generator) : Prop := a.choices = b.choices ∧ a.lengths = b.lengths

namespace Generation

variable {α β : Type}

/-- The actions end alike on generators that agree, and leave generators that agree. -/
def Alike (first second : Generation α) : Prop :=
  ∀ a b : Generator, a.Agrees b →
    (first.run.run a).1 = (second.run.run b).1 ∧
      (first.run.run a).2.Agrees (second.run.run b).2

namespace Alike

variable {first second : Generation α}

theorem result (h : Alike first second) (generator : Generator) :
    (first.run.run generator).1 = (second.run.run generator).1 :=
  (h generator generator ⟨rfl, rfl⟩).1

theorem pure (result : α) : Alike (pure result) (pure result) := fun _ _ h => ⟨rfl, h⟩

theorem throw (failure : Failure GenerateError) :
    Alike (throw failure : Generation α) (throw failure) := fun _ _ h => ⟨rfl, h⟩

theorem bind {next further : α → Generation β} (h : Alike first second)
    (hNext : ∀ result, Alike (next result) (further result)) :
    Alike (first >>= next) (second >>= further) := by
  intro a b hAgree
  obtain ⟨hEnded, hLater⟩ := h a b hAgree
  rw [run_bind, run_bind]
  rcases hFirst : first.run.run a with ⟨ended, later⟩
  rcases hSecond : second.run.run b with ⟨others, other⟩
  rw [hFirst, hSecond] at hEnded hLater
  dsimp only at hEnded hLater
  subst hEnded
  cases ended with
  | error failure => exact ⟨rfl, hLater⟩
  | ok result => exact hNext result later other hLater

theorem choose (draw : Draw α) : Alike (choose draw) (choose draw) := by
  intro a b hAgree
  rcases a with ⟨choices, lengths, notes⟩
  rcases b with ⟨choices', lengths', notes'⟩
  obtain ⟨hChoices, hLengths⟩ := hAgree
  cases hChoices
  cases hLengths
  exact ⟨rfl, rfl, rfl⟩

theorem chooseLength (draw : Draw Nat) : Alike (chooseLength draw) (chooseLength draw) := by
  intro a b hAgree
  rcases a with ⟨choices, lengths, notes⟩
  rcases b with ⟨choices', lengths', notes'⟩
  obtain ⟨hChoices, hLengths⟩ := hAgree
  cases hChoices
  cases hLengths
  exact ⟨rfl, rfl, rfl⟩

theorem reserve (count width : Nat) : Alike (reserve count width) (reserve count width) :=
  fun _ _ h => ⟨rfl, h⟩

theorem note (entry other : GenerationNote) : Alike (note entry) (note other) :=
  fun _ _ h => ⟨rfl, h⟩

/-- Steps that are alike, place by place, are alike together. -/
theorem collect {step other : Nat → Generation α} {count : Nat}
    (h : ∀ place < count, Alike (step place) (other place)) :
    Alike (collect step count) (StoreBench.collect other count) := by
  induction count with
  | zero => exact Alike.pure []
  | succ count ih =>
      rw [collect_succ, collect_succ]
      apply (ih fun place hPlace => h place (by omega)).bind
      intro results
      apply (h count (by omega)).bind
      intro last
      exact Alike.pure _

end Alike

variable {table : ProfileTable} {config : GenerationConfig} {samples : Nat}

theorem command_alike (samples : Nat) (profile : Profile) :
    Alike (command samples profile) (command samples profile) := by
  apply (Alike.choose _).bind
  intro draw
  cases profile.selectOperation draw with
  | none => exact Alike.throw _
  | some operation =>
      dsimp only
      split
      · exact Alike.throw _
      · exact (Alike.choose _).bind fun index => Alike.pure _

/-- A transaction is the same at every place. The place is noted, and no more. -/
theorem transaction_alike (place other : Nat) :
    Alike (transaction table config samples place) (transaction table config samples other) := by
  apply (Alike.choose _).bind
  intro draw
  cases table.select draw with
  | none => exact Alike.throw _
  | some profile =>
      apply (Alike.chooseLength _).bind
      intro length
      apply (Alike.reserve _ _).bind
      intro _
      apply (Alike.collect fun _ _ => command_alike samples profile).bind
      intro commands
      exact (Alike.note _ _).bind fun _ => Alike.pure _

/-- Within the bounds and with room for it, a workload is one transaction after the other. -/
theorem workload_eq_collect
    (hBounds : ¬(config.lengthMin < 1 ∨ config.lengthMax < config.lengthMin))
    (hRoom : config.transactions * Transaction.width ≤ memoryMax) :
    workload table config samples =
      collect (transaction table config samples) config.transactions := by
  have hReserved : Generation.reserve config.transactions Transaction.width = pure () := by
    funext generator
    rw [Generation.reserve, StoreBench.reserve, if_pos hRoom]
    rfl
  rw [workload, if_neg hBounds, hReserved]
  simp

/-- What a run over so many transactions came to, it came to within the bounds and with room. -/
theorem collect_of_workload {generator later : Generator} {whole : Workload}
    (h : (workload table config samples).run.run generator = (.ok whole, later)) :
    ¬(config.lengthMin < 1 ∨ config.lengthMax < config.lengthMin) ∧
      config.transactions * Transaction.width ≤ memoryMax ∧
      (collect (transaction table config samples) config.transactions).run.run generator =
        (.ok whole, later) := by
  have hEnded : ((workload table config samples).run.run generator).1 = .ok whole := by rw [h]
  have hBounds : ¬(config.lengthMin < 1 ∨ config.lengthMax < config.lengthMin) := by
    intro hInvalid
    rw [workload_bounds hInvalid] at hEnded
    cases hEnded
  have hRoom := ((workload_yields table config samples).of_ok hEnded).2.1
  refine ⟨hBounds, hRoom, ?_⟩
  rwa [workload_eq_collect hBounds hRoom] at h

/-- A run that asks for fewer transactions ends with the first of them. -/
theorem workload_take {generator later : Generator} {whole : Workload} {fewer : Nat}
    (h : (workload table config samples).run.run generator = (.ok whole, later))
    (hFewer : fewer ≤ config.transactions) :
    ((workload table { config with transactions := fewer } samples).run.run generator).1 =
      .ok (whole.take fewer) := by
  obtain ⟨hBounds, hRoom, hRan⟩ := collect_of_workload h
  have hSplit := collect_add (transaction table config samples) fewer (config.transactions - fewer)
  rw [Nat.add_sub_cancel' hFewer] at hSplit
  rw [hSplit] at hRan
  obtain ⟨before, between, hBefore, hMore⟩ := exists_ran_of_bind hRan
  obtain ⟨after, _, _, ⟨⟩⟩ := exists_ran_of_bind hMore
  have hFits : fewer * Transaction.width ≤ memoryMax :=
    Nat.le_trans (Nat.mul_le_mul_right _ hFewer) hRoom
  have hShorter : workload table { config with transactions := fewer } samples =
      collect (transaction table config samples) fewer := workload_eq_collect hBounds hFits
  have hShort : ((workload table { config with transactions := fewer } samples).run.run
      generator).1 = .ok before := by
    rw [hShorter]
    exact congrArg Prod.fst hBefore
  have hLength : before.length = fewer := ((workload_yields _ _ _).of_ok hShort).1
  rw [hShort, List.take_left' hLength]

/-- The workloads of so many calls on one generator, one after the other. -/
def successive (table : ProfileTable) (config : GenerationConfig) (samples calls : Nat) :
    Generation (List Workload) :=
  collect (fun _ => workload table config samples) calls

theorem length_successive {calls : Nat} {generator : Generator} {parts : List Workload}
    (h : ((successive table config samples calls).run.run generator).1 = .ok parts) :
    parts.length = calls := by
  have hYields : Yields (successive table config samples calls) _ _ :=
    Yields.collect fun _ _ => workload_yields table config samples
  exact (hYields.of_ok h).1

/-- Calls that go through without want of room are one run over all their transactions, cut into
pieces. -/
theorem successive_alike (calls : Nat)
    (hBounds : ¬(config.lengthMin < 1 ∨ config.lengthMax < config.lengthMin))
    (hRoom : calls * config.transactions * Transaction.width ≤ memoryMax) :
    Alike (successive table config samples calls)
      (collect (fun call => collect (fun i =>
        transaction table config samples (call * config.transactions + i)) config.transactions)
        calls) := by
  apply Alike.collect
  intro call hCall
  have hOne : config.transactions * Transaction.width ≤ memoryMax := by
    have hFirst := Nat.le_mul_of_pos_left config.transactions (show 0 < calls by omega)
    exact Nat.le_trans (Nat.mul_le_mul_right _ hFirst) hRoom
  rw [workload_eq_collect hBounds hOne]
  exact Alike.collect fun place _ => transaction_alike _ _

/-- Several calls end with the pieces of what a single one makes. -/
theorem successive_flatten {generator later : Generator} {whole : Workload} {calls each : Nat}
    (h : (workload table config samples).run.run generator = (.ok whole, later))
    (hCalls : calls * each = config.transactions) :
    ∃ parts, ((successive table { config with transactions := each } samples calls).run.run
      generator).1 = .ok parts ∧ parts.flatten = whole := by
  obtain ⟨hBounds, hRoom, hRan⟩ := collect_of_workload h
  rw [← hCalls, collect_mul] at hRan
  obtain ⟨parts, _, hParts, ⟨⟩⟩ := exists_ran_of_bind hRan
  rw [← hCalls] at hRoom
  have hAlike : Alike (successive table { config with transactions := each } samples calls) _ :=
    successive_alike calls hBounds hRoom
  exact ⟨parts, (hAlike.result generator).trans (congrArg Prod.fst hParts), rfl⟩

/-- Generating is reading on in two streams. Of a workload that was generated, every beginning is
the workload that a fresh generator makes when asked for as many transactions; and if so many calls
on one generator ask for as many transactions together, their workloads are the pieces of it. -/
theorem generation_resumes {table : ProfileTable} {config : GenerationConfig} {samples : Nat}
    {seed : UInt64} {whole : Workload}
    (h : Workload.generate table config samples seed = .ok whole) :
    (∀ fewer ≤ config.transactions,
      Workload.generate table { config with transactions := fewer } samples seed =
        .ok (whole.take fewer)) ∧
    ∀ calls each : Nat, calls * each = config.transactions →
      ∃ parts, ((successive table { config with transactions := each } samples calls).run.run
          (Generator.ofSeed seed)).1 = .ok parts ∧
        parts.length = calls ∧ parts.flatten = whole := by
  rw [Workload.generate, Workload.generateFrom] at h
  rcases hRan : (workload table config samples).run.run (Generator.ofSeed seed) with ⟨ended, later⟩
  rw [hRan] at h
  cases h
  constructor
  · intro fewer hFewer
    exact workload_take hRan hFewer
  · intro calls each hCalls
    obtain ⟨parts, hParts, hFlatten⟩ := successive_flatten hRan hCalls
    exact ⟨parts, hParts, length_successive hParts, hFlatten⟩

/-- Six transactions of lengths that their profiles ask for, made four at first, and in three calls
of two. -/
theorem generation_resumes_in_pairs :
    let percent (n : Nat) : Binary64 := .finite false (n * Binary64.one)
    let config (transactions : Nat) : GenerationConfig := ⟨transactions, 2, 64, true⟩
    let table : ProfileTable :=
      [⟨"reads", percent 30, [(.get, percent 100)], 0, 0⟩,
       ⟨"writes", percent 70, [(.get, percent 50), (.put, percent 50)], 3, 9⟩]
    ∃ whole parts, Workload.generate table (config 6) 5 7 = .ok whole ∧
      Workload.generate table (config 4) 5 7 = .ok (whole.take 4) ∧
      ((successive table (config 2) 5 3).run.run (Generator.ofSeed 7)).1 = .ok parts ∧
      parts.length = 3 ∧ parts.flatten = whole := by
  intro percent config table
  have hPercent (n : Nat) : (percent n).IsWhole := ⟨false, n, rfl⟩
  have hWhole : table.Whole := by
    simp only [table, ProfileTable.Whole, Profile.Whole, List.forall_mem_cons, hPercent]
    simp
  have hValid : table.validate = .ok () := by decide +kernel
  have hBounds : ¬((config 6).lengthMin < 1 ∨ (config 6).lengthMax < (config 6).lengthMin) := by
    decide
  obtain ⟨whole, hGenerated⟩ : ∃ whole, Workload.generate table (config 6) 5 7 = .ok whole :=
    exists_workload hWhole hValid hBounds (show 1 ≤ 5 by decide)
      (roomy_of_mem hWhole hValid (by decide) (by decide)) (.ofSeed 7)
  obtain ⟨hFewer, hCalls⟩ := generation_resumes hGenerated
  obtain ⟨parts, hParts⟩ := hCalls 3 2 rfl
  exact ⟨whole, parts, hGenerated, hFewer 4 (by decide), hParts⟩

end Generation

end StoreBench
