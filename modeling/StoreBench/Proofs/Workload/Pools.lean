import StoreBench.Proofs.Workload.Generation
import StoreBench.Proofs.Workload.Seeds

/-! Pools. Every worker of a run generates from a seed of its own, so its workload is the same in
all pools that are large enough to have it, and a pool fails as its first failing worker does. -/
namespace StoreBench

namespace Pool

variable {table : ProfileTable} {config : GenerationConfig} {samples : Nat} {seed : UInt64}

theorem generate_take {workers fewer : Nat} {pool : Pool}
    (h : generate table config samples seed workers = .ok pool) (hFewer : fewer ≤ workers) :
    generate table config samples seed fewer = .ok (pool.take fewer) := by
  obtain ⟨rfl, hEach⟩ := collect_eq_ok_iff.mp h
  apply collect_eq_ok_iff.mpr
  constructor
  · simpa using hFewer
  · intro worker hWorker
    rw [List.getElem_take]
    exact hEach worker _

/-- The workload of a worker is the one that its own seed makes, in every pool; so smaller pools
are beginnings of larger ones. A pool is there exactly if all its workloads are, and otherwise the
failure is that of the lowest worker that fails. Two workers never have the same seed. -/
theorem generated_by_own_seeds (table : ProfileTable) (config : GenerationConfig) (samples : Nat)
    (seed : UInt64) (workers : Nat) :
    let own (worker : Nat) := Workload.generate table config samples (deriveSeed seed worker.toUInt64)
    (∀ pool, generate table config samples seed workers = .ok pool ↔
      pool.length = workers ∧
        ∀ (worker : Nat) (h : worker < pool.length), own worker = .ok pool[worker]) ∧
    (∀ pool, generate table config samples seed workers = .ok pool → ∀ fewer ≤ workers,
      generate table config samples seed fewer = .ok (pool.take fewer)) ∧
    ((∃ pool, generate table config samples seed workers = .ok pool) ↔
      ∀ worker < workers, ∃ workload, own worker = .ok workload) ∧
    (∀ failure, generate table config samples seed workers = .error failure ↔
      ∃ worker < workers, own worker = .error failure ∧
        ∀ before < worker, ∃ workload, own before = .ok workload) ∧
    ∀ i j : UInt64, deriveSeed seed i = deriveSeed seed j ↔ i = j := by
  intro own
  refine ⟨fun pool => collect_eq_ok_iff, ?_, exists_collect_iff, fun failure =>
    collect_eq_error_iff, fun i j => deriveSeed_inj⟩
  intro pool h fewer hFewer
  exact generate_take h hFewer

/-- The workloads of two workers do not change when a third one joins them. -/
theorem generated_by_own_seeds_three_workers :
    let percent (n : Nat) : Binary64 := .finite false (n * Binary64.one)
    let config : GenerationConfig := ⟨50, 2, 64, false⟩
    let table : ProfileTable :=
      [⟨"reads", percent 30, [(.get, percent 100)], 0, 0⟩,
       ⟨"writes", percent 70, [(.get, percent 50), (.put, percent 50)], 0, 0⟩]
    ∃ pool, Pool.generate table config 1000 11 3 = .ok pool ∧
      Pool.generate table config 1000 11 2 = .ok (pool.take 2) ∧
      ∃ second, pool[1]? = some second ∧
        Workload.generate table config 1000 (deriveSeed 11 1) = .ok second := by
  intro percent config table
  have hPercent (n : Nat) : (percent n).IsWhole := ⟨false, n, rfl⟩
  have hWhole : table.Whole := by
    simp only [table, ProfileTable.Whole, Profile.Whole, List.forall_mem_cons, hPercent]
    simp
  have hValid : table.validate = .ok () := by decide +kernel
  have hRoomy : Generation.Roomy table config :=
    Generation.roomy_of_mem hWhole hValid (by decide) (by decide)
  have hOwn (worker : Nat) := Generation.exists_workload hWhole hValid
    (show ¬(config.lengthMin < 1 ∨ config.lengthMax < config.lengthMin) by decide)
    (show 1 ≤ 1000 by decide) hRoomy (.ofSeed (deriveSeed 11 worker.toUInt64))
  obtain ⟨hEntries, hFewer, hThere, _, _⟩ := generated_by_own_seeds table config 1000 11 3
  obtain ⟨pool, hPool⟩ := hThere.mpr fun worker _ => hOwn worker
  obtain ⟨hLength, hEach⟩ := (hEntries pool).mp hPool
  have hSecond : 1 < pool.length := by omega
  exact ⟨pool, hPool, hFewer pool hPool 2 (by decide), pool[1], List.getElem?_eq_getElem hSecond,
    hEach 1 hSecond⟩

end Pool

end StoreBench
