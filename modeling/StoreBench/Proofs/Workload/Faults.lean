import StoreBench.Proofs.Outcome
import StoreBench.Proofs.Workload.RoundTrip

/-! The faults of workload documents. A document is decoded exactly if it is the document of some
workload, that is, if every declared size is right and every spelling is known. Any other document
has faults, and the first of them in the order of the document is the one that is reported. -/
namespace StoreBench

section Accepted

theorem checkSize_eq_ok_iff {what : String} {declared actual : Nat} :
    checkSize what declared actual = .ok () ↔ declared = actual := by
  unfold checkSize
  split <;> simp_all

theorem Operation.parse_eq_ok_iff {spelling : String} {op : Operation} :
    parse spelling = .ok op ↔ spelling = op.spelling := by
  constructor
  · intro h
    unfold parse ofSpelling? at h
    split at h
    · rename_i found hFound
      split at hFound <;> cases hFound <;> cases h <;> rfl
    · cases h
  · rintro rfl
    rw [parse, ofSpelling?_spelling]

theorem CommandDocument.toCommand_eq_ok_iff {d : CommandDocument} {command : Command} :
    d.toCommand = .ok command ↔ d = ofCommand command := by
  constructor
  · intro h
    obtain ⟨op, hOp, hCommand⟩ := exists_of_bind_eq_ok h
    cases hCommand
    rw [ofCommand, ← Operation.parse_eq_ok_iff.mp hOp]
  · rintro rfl
    exact toCommand_ofCommand command

/-- Decoded commands, with a right size in front, are those of the document. -/
theorem TransactionDocument.toTransaction_eq_ok_iff {d : TransactionDocument} {tx : Transaction}
    {place : Nat} : d.toTransaction place = .ok tx ↔ d = ofTransaction tx := by
  constructor
  · intro h
    obtain ⟨_, hSize, hDecoded⟩ := exists_of_bind_eq_ok h
    have hCommands : d.commands.map id = tx.map CommandDocument.ofCommand :=
      (mapM_eq_ok_iff fun _ _ => CommandDocument.toCommand_eq_ok_iff).mp hDecoded
    rw [List.map_id] at hCommands
    rw [checkSize_eq_ok_iff, hCommands, List.length_map] at hSize
    rw [ofTransaction, ← hSize, ← hCommands]
  · rintro rfl
    exact toTransaction_ofTransaction tx place

theorem WorkloadDocument.toWorkload_eq_ok_iff {d : WorkloadDocument} {workload : Workload} :
    d.toWorkload = .ok workload ↔ d = ofWorkload workload := by
  constructor
  · intro h
    obtain ⟨_, hSize, hDecoded⟩ := exists_of_bind_eq_ok h
    have hTransactions : d.transactions.zipIdx.map Prod.fst =
        workload.map TransactionDocument.ofTransaction :=
      (mapM_eq_ok_iff fun _ _ => TransactionDocument.toTransaction_eq_ok_iff).mp hDecoded
    rw [List.zipIdx_map_fst] at hTransactions
    rw [checkSize_eq_ok_iff, hTransactions, List.length_map] at hSize
    rw [ofWorkload, ← hSize, ← hTransactions]
  · rintro rfl
    exact toWorkload_ofWorkload workload

theorem PoolDocument.toPool_eq_ok_iff {d : PoolDocument} {pool : Pool} :
    d.toPool = .ok pool ↔ d = ofPool pool := by
  constructor
  · intro h
    obtain ⟨_, hSize, hDecoded⟩ := exists_of_bind_eq_ok h
    have hWorkloads : d.workloads.map id = pool.map WorkloadDocument.ofWorkload :=
      (mapM_eq_ok_iff fun _ _ => WorkloadDocument.toWorkload_eq_ok_iff).mp hDecoded
    rw [List.map_id] at hWorkloads
    rw [checkSize_eq_ok_iff, hWorkloads, List.length_map] at hSize
    rw [ofPool, ← hSize, ← hWorkloads]
  · rintro rfl
    exact toPool_ofPool pool

end Accepted

section Sound

/-- The size is the number of commands, and their spellings are those of operations. -/
def TransactionDocument.Sound (d : TransactionDocument) : Prop :=
  d.size = d.commands.length ∧ ∀ command ∈ d.commands, command.spelling ∈ ["get", "put"]

def WorkloadDocument.Sound (d : WorkloadDocument) : Prop :=
  d.size = d.transactions.length ∧ ∀ tx ∈ d.transactions, tx.Sound

def PoolDocument.Sound (d : PoolDocument) : Prop :=
  d.size = d.workloads.length ∧ ∀ workload ∈ d.workloads, workload.Sound

end Sound

section Faults

/-- The fault of a declared size, if it has one. -/
def sizeFaults (what : String) (declared actual : Nat) : List ParseError :=
  if declared = actual then [] else [.sizeMismatch what declared actual]

def CommandDocument.faults (d : CommandDocument) : List ParseError :=
  if d.spelling ∈ ["get", "put"] then [] else [.unexpectedOpcode d.spelling]

/-- All faults of a transaction in order: its size, and then its commands from the first to the
last. -/
def TransactionDocument.faults (d : TransactionDocument) (place : Nat) : List ParseError :=
  sizeFaults s!"transaction {place}" d.size d.commands.length ++
    d.commands.flatMap CommandDocument.faults

def WorkloadDocument.faults (d : WorkloadDocument) : List ParseError :=
  sizeFaults "workload" d.size d.transactions.length ++
    d.transactions.zipIdx.flatMap fun (tx, place) => tx.faults place

def PoolDocument.faults (d : PoolDocument) : List ParseError :=
  sizeFaults "workload pool" d.size d.workloads.length ++
    d.workloads.flatMap WorkloadDocument.faults

theorem sizeFaults_eq_nil_iff {what : String} {declared actual : Nat} :
    sizeFaults what declared actual = [] ↔ declared = actual := by
  unfold sizeFaults
  split <;> simp_all

theorem CommandDocument.faults_eq_nil_iff {d : CommandDocument} :
    d.faults = [] ↔ d.spelling ∈ ["get", "put"] := by
  unfold faults
  split <;> simp_all

theorem TransactionDocument.faults_eq_nil_iff {d : TransactionDocument} {place : Nat} :
    d.faults place = [] ↔ d.Sound := by
  rw [faults, List.append_eq_nil_iff, sizeFaults_eq_nil_iff, List.flatMap_eq_nil_iff, Sound]
  simp only [CommandDocument.faults_eq_nil_iff]

theorem WorkloadDocument.faults_eq_nil_iff {d : WorkloadDocument} : d.faults = [] ↔ d.Sound := by
  rw [faults, List.append_eq_nil_iff, sizeFaults_eq_nil_iff, List.flatMap_eq_nil_iff, Sound,
    ← List.zipIdx_map_fst 0 d.transactions, List.forall_mem_map]
  simp only [TransactionDocument.faults_eq_nil_iff, List.zipIdx_map_fst]

theorem PoolDocument.faults_eq_nil_iff {d : PoolDocument} : d.faults = [] ↔ d.Sound := by
  rw [faults, List.append_eq_nil_iff, sizeFaults_eq_nil_iff, List.flatMap_eq_nil_iff, Sound]
  simp only [WorkloadDocument.faults_eq_nil_iff]

theorem checkSize_blames (what : String) (declared actual : Nat) :
    Blames (checkSize what declared actual) (sizeFaults what declared actual) := by
  unfold checkSize sizeFaults
  split
  · exact .clear ()
  · exact .fault _ []

theorem CommandDocument.toCommand_blames (d : CommandDocument) : Blames d.toCommand d.faults := by
  have hParse : Blames (Operation.parse d.spelling) d.faults := by
    unfold faults
    split
    · rename_i hKnown
      rcases List.mem_pair.mp hKnown with hGet | hPut
      · rw [hGet]
        exact .clear Operation.get
      · rw [hPut]
        exact .clear Operation.put
    · rename_i hUnknown
      have hNone : Operation.ofSpelling? d.spelling = none := by
        unfold Operation.ofSpelling?
        split <;> simp_all
      rw [Operation.parse, hNone]
      exact .fault _ []
  exact hParse.map fun op => Command.mk op d.position

theorem TransactionDocument.toTransaction_blames (d : TransactionDocument) (place : Nat) :
    Blames (d.toTransaction place) (d.faults place) :=
  (checkSize_blames _ _ _).bind fun _ => .mapM CommandDocument.toCommand_blames d.commands

theorem WorkloadDocument.toWorkload_blames (d : WorkloadDocument) :
    Blames d.toWorkload d.faults := by
  refine (checkSize_blames _ _ _).bind fun _ => Blames.mapM ?_ d.transactions.zipIdx
  rintro ⟨tx, place⟩
  exact tx.toTransaction_blames place

theorem PoolDocument.toPool_blames (d : PoolDocument) : Blames d.toPool d.faults :=
  (checkSize_blames _ _ _).bind fun _ => .mapM WorkloadDocument.toWorkload_blames d.workloads

end Faults

/-- Decoding takes the documents of workloads and no others, and names the first fault of each of
the others. The same holds of pools. -/
theorem decoding_blames_first_fault :
    (∀ d : WorkloadDocument,
      (∀ workload, d.toWorkload = .ok workload ↔ d = .ofWorkload workload) ∧
      ((∃ workload, d.toWorkload = .ok workload) ↔ d.Sound) ∧
      ∀ error, d.toWorkload = .error error ↔ d.faults.head? = some error) ∧
    ∀ d : PoolDocument,
      (∀ pool, d.toPool = .ok pool ↔ d = .ofPool pool) ∧
      ((∃ pool, d.toPool = .ok pool) ↔ d.Sound) ∧
      ∀ error, d.toPool = .error error ↔ d.faults.head? = some error := by
  constructor
  · intro d
    have hBlames := d.toWorkload_blames
    exact ⟨fun _ => WorkloadDocument.toWorkload_eq_ok_iff,
      hBlames.exists_ok_iff.trans WorkloadDocument.faults_eq_nil_iff, hBlames.error_iff⟩
  · intro d
    have hBlames := d.toPool_blames
    exact ⟨fun _ => PoolDocument.toPool_eq_ok_iff,
      hBlames.exists_ok_iff.trans PoolDocument.faults_eq_nil_iff, hBlames.error_iff⟩

/-- A wrong size is reported before the unknown spellings that it stands in front of. -/
example : (WorkloadDocument.mk 1 [⟨2, [⟨"ins", 0⟩]⟩]).toWorkload =
    .error (.sizeMismatch "transaction 0" 2 1) := by
  rfl

end StoreBench
