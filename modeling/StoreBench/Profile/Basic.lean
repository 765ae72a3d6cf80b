import StoreBench.Binary64.Decimal
import StoreBench.Workload.Basic

/-! Transaction profiles: weighted recipes for one shape of transaction. Profiles and their
operations are chosen by the same weighted scan, which walks the weights in order. -/
namespace StoreBench

/-- Selection draws run from one to this number. -/
def selectionRange : Nat := 100

/-- Walks the items in order and takes each weight off the draw until the rest fits. Weights that
sum to less than the draw select nothing. -/
def weightedScan {α : Type} (residual : Binary64) : List (α × Binary64) → Option α
  | [] => none
  | (item, weight) :: rest =>
    if residual.atMost weight then some item else weightedScan (residual.sub weight) rest

/-- The item that a draw selects. -/
def selectWeighted {α : Type} (items : List (α × Binary64)) (draw : Nat) : Option α :=
  weightedScan (Binary64.ofNat draw) items

structure Profile where
  name : String
  /-- Weights are not normalised; profiles and operations use the same unit. -/
  weight : Binary64
  operations : List (Operation × Binary64)
  lengthMin : Nat
  lengthMax : Nat
deriving DecidableEq, Repr

namespace Profile

/-- The profile's own length bounds, if they describe a usable range. -/
def lengthBounds? (profile : Profile) : Option (Nat × Nat) :=
  if 1 ≤ profile.lengthMin ∧ profile.lengthMin ≤ profile.lengthMax then
    some (profile.lengthMin, profile.lengthMax)
  else none

def selectOperation (profile : Profile) (draw : Nat) : Option Operation :=
  selectWeighted profile.operations draw

def operationTotal (profile : Profile) : Binary64 :=
  Binary64.sum (profile.operations.map Prod.snd)

end Profile

/-- Profiles in selection order. -/
abbrev ProfileTable := List Profile

namespace ProfileTable

def select (table : ProfileTable) (draw : Nat) : Option Profile :=
  selectWeighted (table.map fun p => (p, p.weight)) draw

def find (table : ProfileTable) (name : String) : Option Profile :=
  List.find? (fun p => p.name == name) table

def total (table : ProfileTable) : Binary64 := Binary64.sum (table.map Profile.weight)

end ProfileTable

end StoreBench
