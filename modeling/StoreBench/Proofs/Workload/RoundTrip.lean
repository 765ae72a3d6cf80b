import StoreBench.Proofs.Json.RoundTrip
import StoreBench.Workload.Document

/-! Workloads and pools come back from the documents they are written to. The texts are read as
the documents that were printed, and every size that was written down is found to be right. -/
namespace StoreBench

open Json (RoundTrips Restores Reader)

/-- The size and the positions of a transaction are words of the machine. -/
def Transaction.Fits (tx : Transaction) : Prop :=
  tx.length ≤ wordMax ∧ ∀ command ∈ tx, command.index ≤ wordMax

def Workload.Fits (workload : Workload) : Prop :=
  workload.length ≤ wordMax ∧ ∀ tx ∈ workload, Transaction.Fits tx

def Pool.Fits (pool : Pool) : Prop :=
  pool.length ≤ wordMax ∧ ∀ workload ∈ pool, Workload.Fits workload

section Texts

theorem Operation.spelling_plain (op : Operation) : Json.Plain op.spelling := by
  cases op <;> decide

theorem CommandDocument.roundTrips {command : Command} (h : command.index ≤ wordMax) :
    RoundTrips read (fun depth => (ofCommand command).print depth) (ofCommand command) := by
  have hSpelling := RoundTrips.text (Operation.spelling_plain command.operation)
  have hPosition := RoundTrips.word h
  have hFields : Restores fields _ {} (ofCommand command) :=
    .cons (hSpelling.map _) (.cons (hPosition.map _) (.nil _))
  exact .record (by decide) (by decide) hFields

theorem TransactionDocument.roundTrips {tx : Transaction} (h : tx.Fits) :
    RoundTrips read (fun depth => (ofTransaction tx).print depth) (ofTransaction tx) := by
  have hSize := RoundTrips.word h.1
  have hItems : ∀ item ∈ tx.map CommandDocument.ofCommand,
      RoundTrips CommandDocument.read (fun depth => item.print depth) item :=
    List.forall_mem_map.mpr fun command hCommand =>
      CommandDocument.roundTrips (h.2 command hCommand)
  have hFields : Restores fields _ {} (ofTransaction tx) :=
    .cons (hSize.map _) (.cons ((RoundTrips.array hItems).map _) (.nil _))
  exact .record (by decide) (by decide) hFields

theorem WorkloadDocument.roundTrips {workload : Workload} (h : workload.Fits) :
    RoundTrips read (fun depth => (ofWorkload workload).print depth) (ofWorkload workload) := by
  have hSize := RoundTrips.word h.1
  have hItems : ∀ item ∈ workload.map TransactionDocument.ofTransaction,
      RoundTrips TransactionDocument.read (fun depth => item.print depth) item :=
    List.forall_mem_map.mpr fun tx hTx => TransactionDocument.roundTrips (h.2 tx hTx)
  have hFields : Restores fields _ {} (ofWorkload workload) :=
    .cons (hSize.map _) (.cons ((RoundTrips.array hItems).map _) (.nil _))
  exact .record (by decide) (by decide) hFields

/-- A pool stands at the top of its document. -/
theorem PoolDocument.roundTrips {pool : Pool} (h : pool.Fits) :
    RoundTrips read
      (fun depth => Json.Layout.object depth
        [("size", Bytes.decimal pool.length),
         ("workloads", Json.Layout.array (depth + 1)
           ((pool.map WorkloadDocument.ofWorkload).map (WorkloadDocument.print (depth + 2))))])
      (ofPool pool) := by
  have hSize := RoundTrips.word h.1
  have hItems : ∀ item ∈ pool.map WorkloadDocument.ofWorkload,
      RoundTrips WorkloadDocument.read (fun depth => item.print depth) item :=
    List.forall_mem_map.mpr fun workload hWorkload =>
      WorkloadDocument.roundTrips (h.2 workload hWorkload)
  have hFields : Restores fields _ {} (ofPool pool) :=
    .cons (hSize.map _) (.cons ((RoundTrips.array hItems).map _) (.nil _))
  exact .record (by decide) (by decide) hFields

end Texts

section Sizes

theorem checkSize_self (what : String) (size : Nat) : checkSize what size size = .ok () :=
  if_pos rfl

theorem CommandDocument.toCommand_ofCommand (command : Command) :
    (ofCommand command).toCommand = .ok command := by
  rw [toCommand, ofCommand, Operation.parse, Operation.ofSpelling?_spelling]
  rfl

theorem TransactionDocument.toTransaction_ofTransaction (tx : Transaction) (place : Nat) :
    (ofTransaction tx).toTransaction place = .ok tx := by
  have hCommands : CommandDocument.toCommand ∘ CommandDocument.ofCommand = Except.ok := by
    funext command
    exact CommandDocument.toCommand_ofCommand command
  simp only [toTransaction, ofTransaction, List.length_map, checkSize_self, List.mapM_map,
    hCommands]
  exact List.mapM_pure.trans (by simp [pure, Except.pure])

theorem WorkloadDocument.toWorkload_ofWorkload (workload : Workload) :
    (ofWorkload workload).toWorkload = .ok workload := by
  have hTransactions : (fun (entry : TransactionDocument × Nat) =>
      entry.1.toTransaction entry.2) ∘ Prod.map TransactionDocument.ofTransaction id =
        fun entry => .ok entry.1 := by
    funext entry
    exact TransactionDocument.toTransaction_ofTransaction entry.1 entry.2
  simp only [toWorkload, ofWorkload, List.length_map, checkSize_self, List.zipIdx_map,
    List.mapM_map, hTransactions]
  exact List.mapM_pure.trans (congrArg pure (List.zipIdx_map_fst 0 workload))

theorem PoolDocument.toPool_ofPool (pool : Pool) : (ofPool pool).toPool = .ok pool := by
  have hWorkloads : WorkloadDocument.toWorkload ∘ WorkloadDocument.ofWorkload = Except.ok := by
    funext workload
    exact WorkloadDocument.toWorkload_ofWorkload workload
  simp only [toPool, ofPool, List.length_map, checkSize_self, List.mapM_map, hWorkloads]
  exact List.mapM_pure.trans (by simp [pure, Except.pure])

end Sizes

theorem Workload.parse_print {workload : Workload} (h : workload.Fits) :
    parse workload.print = .ok workload := by
  have hRead := (WorkloadDocument.roundTrips h).document 0
  rw [parse, print, readDocument, hRead]
  exact WorkloadDocument.toWorkload_ofWorkload workload

theorem Pool.parse_print {pool : Pool} (h : pool.Fits) : parse pool.print = .ok pool := by
  have hRead : Reader.document PoolDocument.read pool.print = .ok (PoolDocument.ofPool pool) :=
    (PoolDocument.roundTrips h).document 0
  rw [parse, readDocument, hRead]
  exact PoolDocument.toPool_ofPool pool

/-- Reading undoes writing. Empty transactions, workloads and pools come back as such. -/
theorem reading_undoes_writing :
    (∀ workload : Workload, workload.Fits → Workload.parse workload.print = .ok workload) ∧
      ∀ pool : Pool, pool.Fits → Pool.parse pool.print = .ok pool := by
  constructor
  · intro workload hFits
    exact Workload.parse_print hFits
  · intro pool hFits
    exact Pool.parse_print hFits

/-- The last word and the empty lists are no exceptions. -/
theorem reading_undoes_writing_last_word :
    let workload : Workload := [[], [⟨.put, wordMax⟩, ⟨.get, 0⟩]]
    let pool : Pool := [[], workload]
    (workload.Fits ∧ Workload.parse workload.print = .ok workload) ∧
      pool.Fits ∧ Pool.parse pool.print = .ok pool := by
  intro workload pool
  have hWorkload : workload.Fits := by
    simp [workload, Workload.Fits, Transaction.Fits, wordMax]
  have hPool : pool.Fits := by
    simp [pool, workload, Pool.Fits, Workload.Fits, Transaction.Fits, wordMax]
  exact ⟨⟨hWorkload, reading_undoes_writing.1 workload hWorkload⟩, hPool,
    reading_undoes_writing.2 pool hPool⟩

end StoreBench
