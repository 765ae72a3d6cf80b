import Mathlib.Algebra.Order.Floor.Div
import Mathlib.Data.Int.CardIntervalMod
import StoreBench.Run.Placement

/-! How workers are spread over cores. They take the CPUs of a layout in turn, so no CPU gets more
than one worker above another. A layout that says nothing of the CPUs in a core, or more of them
than there are, still has a core to send workers to. -/
namespace StoreBench.CpuLayout

variable {layout : CpuLayout} {host : Host}

theorem physicalCpus_pos (layout : CpuLayout) (host : Host) : 0 < layout.physicalCpus host :=
  Nat.lt_of_lt_of_le Nat.zero_lt_one (Nat.le_max_left 1 _)

/-- The CPUs that workers are sent to have words for numbers, up to the one behind the last. -/
def Numbered (layout : CpuLayout) (host : Host) : Prop :=
  layout.offset + layout.physicalCpus host ≤ wordMax

theorem Numbered.cpuFor_eq (h : layout.Numbered host) (worker : Nat) :
    layout.cpuFor host worker = .ok (layout.offset + worker % layout.physicalCpus host) := by
  have hLess := Nat.mod_lt worker (layout.physicalCpus_pos host)
  rw [Numbered] at h
  rw [cpuFor, addWords, if_pos (by omega)]

/-- A worker is sent to the CPU that stands where its remainder is. -/
theorem Numbered.cpuFor_eq_iff (h : layout.Numbered host) {place : Nat}
    (hPlace : place < layout.physicalCpus host) (worker : Nat) :
    layout.cpuFor host worker = .ok (layout.offset + place) ↔
      worker ≡ place [MOD layout.physicalCpus host] := by
  rw [h.cpuFor_eq, Except.ok.injEq, Nat.add_left_cancel_iff, Nat.ModEq, Nat.mod_eq_of_lt hPlace]

/-- How many of the workers below `workers` are sent to a CPU. -/
def received (layout : CpuLayout) (host : Host) (workers cpu : Nat) : Nat :=
  Nat.count (fun worker => layout.cpuFor host worker = .ok cpu) workers

/-- The workers left after the last full turn go to the CPUs in front. -/
theorem Numbered.received_eq (h : layout.Numbered host) {place : Nat}
    (hPlace : place < layout.physicalCpus host) (workers : Nat) :
    layout.received host workers (layout.offset + place) =
      workers / layout.physicalCpus host +
        if place < workers % layout.physicalCpus host then 1 else 0 := by
  have hSame := Nat.count_modEq_card workers (layout.physicalCpus_pos host) place
  rw [Nat.mod_eq_of_lt hPlace] at hSame
  simpa only [received, h.cpuFor_eq_iff hPlace] using hSame

/-- A quotient that leaves something is rounded up to the next number. -/
theorem ceilDiv_eq_succ {count parts : Nat} (hParts : 0 < parts) (hLeft : 0 < count % parts) :
    count ⌈/⌉ parts = count / parts + 1 := by
  have hSplit := Nat.div_add_mod' count parts
  have hLess := Nat.mod_lt count hParts
  rw [Nat.ceilDiv_eq_add_pred_div]
  apply Nat.div_eq_of_lt_le
  · rw [Nat.succ_mul]
    omega
  · rw [Nat.succ_mul, Nat.succ_mul]
    omega

/-- The workers below `workers` are spread evenly. With `cpus` for the number of cores, they are
sent to the `cpus` CPUs from the offset on and to no others. Each of these CPUs receives their
share of `workers`, rounded down or up, and two workers share one exactly if `cpus` divides the
difference of their numbers. -/
structure Spreads (layout : CpuLayout) (host : Host) (workers : Nat) : Prop where
  some_cpu : 1 ≤ layout.physicalCpus host
  sent : ∀ worker < workers, ∃ cpu, layout.cpuFor host worker = .ok cpu ∧
    layout.offset ≤ cpu ∧ cpu < layout.offset + layout.physicalCpus host
  received : ∀ cpu, layout.offset ≤ cpu → cpu < layout.offset + layout.physicalCpus host →
    layout.received host workers cpu = workers / layout.physicalCpus host ∨
      layout.received host workers cpu = workers ⌈/⌉ layout.physicalCpus host
  shared : ∀ worker < workers, ∀ other < workers,
    layout.cpuFor host worker = layout.cpuFor host other ↔
      worker ≡ other [MOD layout.physicalCpus host]

/-- Any number of workers is spread evenly over the cores, of which there is one at least, as long
as all of their CPUs have words for numbers. A layout that tells the number of CPUs has one core for
as many of them as it counts to a core, a count of zero being taken for one; what the host has plays
no part then. -/
theorem spreads_workers (layout : CpuLayout) (host : Host)
    (hNumbered : layout.offset + layout.physicalCpus host ≤ wordMax) (workers : Nat) :
    layout.Spreads host workers ∧
      ∀ logical ∈ layout.logicalCpus,
        layout.physicalCpus host = max 1 (logical / max 1 layout.smtRatio) := by
  have h : layout.Numbered host := hNumbered
  have hSome := layout.physicalCpus_pos host
  refine ⟨⟨hSome, fun worker _ => ?_, fun cpu hFirst hBehind => ?_, fun worker _ other _ => ?_⟩, ?_⟩
  · refine ⟨_, h.cpuFor_eq worker, Nat.le_add_right _ _, ?_⟩
    exact Nat.add_lt_add_left (Nat.mod_lt worker hSome) layout.offset
  · obtain ⟨place, rfl⟩ := Nat.exists_eq_add_of_le hFirst
    rw [h.received_eq (Nat.lt_of_add_lt_add_left hBehind)]
    split_ifs with hLeft
    · exact .inr (ceilDiv_eq_succ hSome (Nat.zero_lt_of_lt hLeft)).symm
    · exact .inl rfl
  · rw [h.cpuFor_eq, h.cpuFor_eq, Except.ok.injEq, Nat.add_left_cancel_iff, Nat.ModEq]
  · intro logical hLogical
    rw [physicalCpus, Option.mem_def.mp hLogical, Option.getD_some]

/-- Eight workers on the last three CPUs that there are numbers for, with a ratio of zero. -/
theorem spreads_workers_last_cpus :
    let layout : CpuLayout := { offset := wordMax - 3, smtRatio := 0, logicalCpus := some 3 }
    layout.offset + layout.physicalCpus {} ≤ wordMax ∧ layout.Spreads {} 8 ∧
      [wordMax - 3, wordMax - 2, wordMax - 1].map (layout.received {} 8) = [3, 3, 2] := by
  intro layout
  have hNumbered : layout.offset + layout.physicalCpus {} ≤ wordMax := by decide
  exact ⟨hNumbered, (spreads_workers layout {} hNumbered 8).1, by decide⟩

end StoreBench.CpuLayout
