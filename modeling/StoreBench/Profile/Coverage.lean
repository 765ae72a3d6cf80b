import StoreBench.Profile.Basic

/-! Coverage: whether every draw will find a profile, and in every profile an operation. -/
namespace StoreBench

/-- Why a table cannot be used for selection as it stands. -/
inductive ProfileError where
  | empty
  | negativeWeight (profile : String)
  | weightsBelowRange (total : Binary64) (range : Nat)
  | operationWeightsBelowRange (profile : String) (total : Binary64) (range : Nat)
deriving DecidableEq, Repr

def ProfileError.message : ProfileError → String
  | .empty => "no transaction profiles"
  | .negativeWeight profile => s!"profile '{profile}' has a negative weight"
  | .weightsBelowRange total range =>
    s!"profile weights sum to {Binary64.plain.text total}, " ++
      s!"draws up to {range} would find no profile"
  | .operationWeightsBelowRange profile total range =>
    s!"operation weights of profile '{profile}' sum to {Binary64.plain.text total}, " ++
      s!"draws up to {range} would find no operation"

def Binary64.isNegative (weight : Binary64) : Bool := weight.less (.finite false 0)

namespace Profile

/-- A profile by itself: no negative weight, and operation weights that reach the range. -/
def validate (profile : Profile) : Except ProfileError Unit :=
  if profile.weight.isNegative || profile.operations.any (·.2.isNegative) then
    .error (.negativeWeight profile.name)
  else if profile.operationTotal.less (Binary64.ofNat selectionRange) then
    .error (.operationWeightsBelowRange profile.name profile.operationTotal selectionRange)
  else .ok ()

end Profile

namespace ProfileTable

/-- The profiles in order, and then their weights together. -/
def validate (table : ProfileTable) : Except ProfileError Unit := do
  if table.isEmpty then throw .empty
  table.forM Profile.validate
  if table.total.less (Binary64.ofNat selectionRange) then
    throw (.weightsBelowRange table.total selectionRange)

end ProfileTable

end StoreBench
