import StoreBench.Store.Basic

/-! A store that changes between the calls made on it, as if others used it too. The calls are
counted, and right before each of them the others have their turn. -/
namespace StoreBench

/-- A store's state with the number of calls counted so far. -/
structure Interleaving (σ : Type) where
  state : σ
  calls : Nat := 0

namespace Store

variable {σ τ α : Type}

/-- Counts a call, lets the others change the state, and then makes the call. -/
def afterOthers (others : Nat → σ → σ) (effect : Effect σ α) : Effect (Interleaving σ) α :=
  fun interleaving =>
    let number := interleaving.calls + 1
    let (result, state) := effect.on (others number interleaving.state)
    (result, ⟨state, number⟩)

/-- Makes a call that is not counted. -/
def uncounted (effect : Effect σ α) : Effect (Interleaving σ) α := fun interleaving =>
  let (result, state) := effect.on interleaving.state
  (result, ⟨state, interleaving.calls⟩)

/-- `others n` is what happens right before call number `n`, counted from one. Asking whether a
transaction is doomed, and dropping a key, are not counted. -/
def interleaved (store : Store σ τ) (others : Nat → σ → σ) : Store (Interleaving σ) τ where
  start := afterOthers others store.start
  read tx key := afterOthers others (store.read tx key)
  write tx key value := afterOthers others (store.write tx key value)
  drop tx key := uncounted (store.drop tx key)
  commit tx := afterOthers others (store.commit tx)
  doomed tx := uncounted (store.doomed tx)

end Store

end StoreBench
