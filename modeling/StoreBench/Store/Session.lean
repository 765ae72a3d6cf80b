import StoreBench.Store.Versioned

/-! Many transactions on one versioned store. A session holds the store and the transactions that
are open, each under a number; its actions are single steps, so any interleaving of transactions
is a list of actions. -/
namespace StoreBench

/-- A store with open transactions. -/
structure Session where
  store : VersionedStore := {}
  opened : Std.TreeMap String OpenTransaction := ∅

inductive Action where
  | populate (samples : SampleSet)
  /-- Begins a transaction; one already open under that name is abandoned. -/
  | start (name : String)
  | read (name : String) (key : Bytes)
  | write (name : String) (key value : Bytes)
  | drop (name : String) (key : Bytes)
  | commit (name : String)
  | abandon (name : String)
deriving DecidableEq, Repr

inductive Answer where
  | done
  | status (status : Status)
  | value (status : Status) (value : Option Bytes)
  | snapshot (version : Nat)
  /-- The action names a transaction that is not open. -/
  | unknown
deriving DecidableEq, Repr

namespace Session

/-- The open transaction of this name. -/
def find (session : Session) (name : String) : Option OpenTransaction := session.opened[name]?

/-- Opens a transaction under a name, or replaces the one that is open there. -/
def set (session : Session) (name : String) (tx : OpenTransaction) : Session :=
  { session with opened := session.opened.insert name tx }

def close (session : Session) (name : String) : Session :=
  { session with opened := session.opened.erase name }

/-- Does something with an open transaction. -/
def withOpen (session : Session) (name : String)
    (act : OpenTransaction → Answer × Session) : Answer × Session :=
  match session.find name with
  | some tx => act tx
  | none => (.unknown, session)

def step (session : Session) : Action → Answer × Session
  | .populate samples =>
    let (status, store) := session.store.populate samples
    (.status status, { session with store })
  | .start name =>
    let tx := session.store.start
    (.snapshot tx.snapshot, session.set name tx)
  | .read name key => session.withOpen name fun tx =>
    let (tx, value, status) := session.store.read tx key
    (.value status value, session.set name tx)
  | .write name key value => session.withOpen name fun tx =>
    let (tx, status) := session.store.write tx key value
    (.status status, session.set name tx)
  | .drop name key => session.withOpen name fun tx =>
    let (tx, status) := session.store.drop tx key
    (.status status, session.set name tx)
  | .commit name => session.withOpen name fun tx =>
    let (status, store) := session.store.commit tx
    (.status status, { session.close name with store })
  | .abandon name => session.withOpen name fun _ => (.done, session.close name)

end Session

end StoreBench
