import StoreBench.Store.Basic

/-! A store that writes down the calls made on it, with their answers. It answers as the store
underneath; only its state is larger. -/
namespace StoreBench

/-- A call and its answer. A call that did not return has none. -/
inductive Call where
  | start
  | read (key : Bytes) (answer : Option Status)
  | write (key value : Bytes) (answer : Option Status)
  | drop (key : Bytes) (answer : Option Status)
  | commit (answer : Option Status)
  | doomed (answer : Option Bool)
deriving DecidableEq, Repr

/-- A store's state with the calls made so far, newest first. -/
structure Recording (σ : Type) where
  state : σ
  calls : List Call := []

namespace Store

variable {σ τ α : Type}

/-- Makes a call on the store underneath and writes it down with its result. -/
def noted (effect : Effect σ α) (describe : Option α → Call) : Effect (Recording σ) α :=
  fun recording =>
    let (result, state) := effect.on recording.state
    (result, ⟨state, describe result.toOption :: recording.calls⟩)

def recorded (store : Store σ τ) : Store (Recording σ) τ where
  start := noted store.start fun _ => .start
  read tx key := noted (store.read tx key) fun result => .read key (result.map (·.2.2))
  write tx key value :=
    noted (store.write tx key value) fun result => .write key value (result.map (·.2))
  drop tx key := noted (store.drop tx key) fun result => .drop key (result.map (·.2))
  commit tx := noted (store.commit tx) .commit
  doomed tx := noted (store.doomed tx) .doomed

end Store

end StoreBench
