import StoreBench.Proofs.Profile.Names

/-! What becomes of one profile of a document. Its members by name are the operations that the
library knows, in the order of their spellings, and warnings about the others. A profile without a
weight is refused before one without operations, and that one before one with unknown operations
only. -/
namespace StoreBench

section Operations

/-- A member of an operations object that the library knows. -/
def knownMember (member : String × Binary64) : Option (Operation × Binary64) :=
  (Operation.ofSpelling? member.1).map fun operation => (operation, member.2)

/-- No operation is spelled like this. -/
def Unknown (spelling : String) : Prop := Operation.ofSpelling? spelling = none

instance (spelling : String) : Decidable (Unknown spelling) :=
  inferInstanceAs (Decidable (Operation.ofSpelling? spelling = none))

/-- What a profile warns about: its unknown operations, in their order. -/
def unknownOperations (profile : String) (members : List (String × Binary64)) :
    List UnknownOperation :=
  (members.filter fun member => Unknown member.1).map fun member => ⟨profile, member.1⟩

theorem ofSpelling?_eq_some_iff {spelling : String} {operation : Operation} :
    Operation.ofSpelling? spelling = some operation ↔ spelling = operation.spelling := by
  constructor
  · intro h
    unfold Operation.ofSpelling? at h
    split at h <;> cases h <;> rfl
  · rintro rfl
    exact operation.ofSpelling?_spelling

theorem knownOperations_run (profile : String) (members : List (String × Binary64))
    (log : List UnknownOperation) :
    (Profile.knownOperations profile members).run log =
      pure (members.filterMap knownMember, (unknownOperations profile members).reverse ++ log) := by
  induction members generalizing log with
  | nil => rfl
  | cons member rest ih =>
      obtain ⟨spelling, weight⟩ := member
      rw [Profile.knownOperations]
      cases hKnown : Operation.ofSpelling? spelling with
      | some operation =>
          simp [ih, knownMember, unknownOperations, Unknown, hKnown]
      | none =>
          simp [StateT.run_bind, ih, knownMember, unknownOperations, Unknown, hKnown]

/-- Operations in the byte order of their spellings are a get, a put, or both in this order. -/
theorem sublist_of_spelled {operations : List Operation}
    (h : operations.Pairwise fun operation other => NameBefore operation.spelling other.spelling) :
    operations.Sublist [.get, .put] := by
  have hAscending : operations.Pairwise fun operation other => operation = .get ∧ other = .put := by
    apply h.imp
    intro operation other hBefore
    revert hBefore
    cases operation <;> cases other <;> decide
  rcases operations with _ | ⟨first, _ | ⟨second, rest⟩⟩
  · exact List.nil_sublist _
  · cases first <;> decide
  · obtain ⟨hFirst, hRest⟩ := List.pairwise_cons.mp hAscending
    obtain ⟨rfl, rfl⟩ := hFirst second List.mem_cons_self
    cases rest with
    | nil => exact List.Sublist.refl _
    | cons third more => cases ((List.pairwise_cons.mp hRest).1 third List.mem_cons_self).1

variable {members : List (String × Binary64)}

theorem knownMember_eq_some_iff {member : String × Binary64} {operation : Operation}
    {weight : Binary64} :
    knownMember member = some (operation, weight) ↔ member = (operation.spelling, weight) := by
  obtain ⟨spelling, other⟩ := member
  rw [knownMember, Option.map_eq_some_iff]
  simp [ofSpelling?_eq_some_iff]

/-- The operations of a profile whose document lists these members. -/
def knownMembers (members : List (String × Binary64)) : List (Operation × Binary64) :=
  (sortNamed members).filterMap knownMember

theorem mem_knownMembers_iff {operation : Operation} {weight : Binary64} :
    (operation, weight) ∈ knownMembers members ↔
      Effective members (operation.spelling, weight) := by
  rw [knownMembers, List.mem_filterMap]
  simp only [knownMember_eq_some_iff, exists_eq_right, mem_sortNamed_iff]

theorem knownMembers_sublist (members : List (String × Binary64)) :
    ((knownMembers members).map Prod.fst).Sublist [.get, .put] := by
  apply sublist_of_spelled
  rw [List.pairwise_map, knownMembers, List.pairwise_filterMap]
  apply (sortNamed_pairwise members).imp
  rintro member other hBefore ⟨operation, weight⟩ hKnown ⟨next, amount⟩ hNext
  rw [knownMember_eq_some_iff.mp hKnown, knownMember_eq_some_iff.mp hNext] at hBefore
  exact hBefore

/-- There are no operations exactly if there is no member that the library knows. -/
theorem knownMembers_eq_nil_iff :
    knownMembers members = [] ↔ ∀ member ∈ members, Unknown member.1 := by
  rw [knownMembers, List.filterMap_eq_nil_iff]
  constructor
  · intro h member hMember
    obtain ⟨found, hFound, hName⟩ := exists_effective hMember
    have hNone := h found (mem_sortNamed_iff.mpr hFound)
    rwa [knownMember, Option.map_eq_none_iff, hName] at hNone
  · intro h member hMember
    rw [knownMember, Option.map_eq_none_iff]
    exact h member (mem_sortNamed_iff.mp hMember).mem

/-- Of members with the same name, one is warned about. -/
theorem mem_unknownOperations_iff {profile spelling : String} :
    ⟨profile, spelling⟩ ∈ unknownOperations profile (sortNamed members) ↔
      Unknown spelling ∧ spelling ∈ members.map Prod.fst := by
  rw [unknownOperations, List.mem_map]
  constructor
  · rintro ⟨member, hMember, ⟨⟩⟩
    rw [List.mem_filter, mem_sortNamed_iff] at hMember
    exact ⟨of_decide_eq_true hMember.2, List.mem_map_of_mem hMember.1.mem⟩
  · rintro ⟨hUnknown, hListed⟩
    obtain ⟨member, hMember, rfl⟩ := List.mem_map.mp hListed
    obtain ⟨found, hFound, hName⟩ := exists_effective hMember
    refine ⟨found, ?_, by rw [hName]⟩
    rw [List.mem_filter, mem_sortNamed_iff, hName]
    exact ⟨hFound, decide_eq_true hUnknown⟩

end Operations

/-- Two profiles that warn are in the order of their names, and two warnings of one profile in that
of the operations. -/
def WarnedBefore (warning other : UnknownOperation) : Prop :=
  NameBefore warning.profile other.profile ∨
    warning.profile = other.profile ∧ NameBefore warning.operation other.operation

namespace ProfileDraft

/-- What is wrong with a profile: it has no weight, or it has no operations, or there is none among
these that the library knows. -/
def fault? (name : String) (draft : ProfileDraft) : Option ParseError :=
  match draft.weight, draft.operations with
  | none, _ => some (.missingField name "prob")
  | some _, none => some (.missingField name "ops")
  | some _, some members =>
    if ∀ member ∈ members, Unknown member.1 then some (.noOperations name) else none

/-- What is warned about before a profile is given or refused. -/
def warnings (name : String) (draft : ProfileDraft) : List UnknownOperation :=
  match draft.weight, draft.operations with
  | some _, some members => unknownOperations name (sortNamed members)
  | _, _ => []

/-- The profile is what a draft without a fault comes to. Of its operations, those are kept that are
known. -/
structure Gives (name : String) (draft : ProfileDraft) (profile : Profile) : Prop where
  faultless : draft.fault? name = none
  name_eq : profile.name = name
  weight : draft.weight = some profile.weight
  operations : ∃ members, draft.operations = some members ∧ ∀ operation weight,
    (operation, weight) ∈ profile.operations ↔ Effective members (operation.spelling, weight)
  nonempty : profile.operations ≠ []
  ordered : (profile.operations.map Prod.fst).Sublist [.get, .put]
  lengthMin : profile.lengthMin = draft.lengthMin.getD 0
  lengthMax : profile.lengthMax = draft.lengthMax.getD 0

variable {name : String} {draft : ProfileDraft}

theorem profile_of_mem_warnings {warning : UnknownOperation} (h : warning ∈ draft.warnings name) :
    warning.profile = name := by
  unfold warnings at h
  split at h
  · obtain ⟨member, _, rfl⟩ := List.mem_map.mp h
    rfl
  · cases h

theorem warnings_pairwise (name : String) (draft : ProfileDraft) :
    (draft.warnings name).Pairwise WarnedBefore := by
  unfold warnings
  split
  · rw [unknownOperations, List.pairwise_map]
    exact ((sortNamed_pairwise _).filter _).imp fun hBefore => Or.inr ⟨rfl, hBefore⟩
  · exact List.Pairwise.nil

theorem Gives.mem_warnings_iff {profile : Profile} {spelling : String}
    (h : draft.Gives name profile) :
    ⟨name, spelling⟩ ∈ draft.warnings name ↔ Unknown spelling ∧
      ∃ members, draft.operations = some members ∧ spelling ∈ members.map Prod.fst := by
  obtain ⟨members, hMembers, _⟩ := h.operations
  simp only [warnings, h.weight, hMembers, Option.some_inj, exists_eq_left']
  exact mem_unknownOperations_iff

end ProfileDraft

/-- A profile with a weight and operations depends on whether some of these are known. -/
theorem Profile.ofDraft_of_members (name : String) (weight : Binary64)
    (members : List (String × Binary64)) (lengthMin lengthMax : Option Nat)
    (log : List UnknownOperation) :
    (ofDraft name ⟨some weight, some members, lengthMin, lengthMax⟩).run.run log =
      (if knownMembers members = [] then .error (.noOperations name)
        else .ok { name, weight, operations := knownMembers members
                   lengthMin := lengthMin.getD 0, lengthMax := lengthMax.getD 0 },
        (unknownOperations name (sortNamed members)).reverse ++ log) := by
  have hRun := knownOperations_run name (sortNamed members) log
  rw [← knownMembers] at hRun
  by_cases hNone : knownMembers members = []
  · simp [ofDraft, ExceptT.run_bind, StateT.run_bind, hRun, hNone]
    rfl
  · simp [ofDraft, ExceptT.run_bind, StateT.run_bind, hRun, hNone]
    rfl

/-- A profile is given or refused, and what it warns about is put in front of the log. -/
theorem Profile.ofDraft_run (name : String) (draft : ProfileDraft) :
    ∃ result, (∀ log, (ofDraft name draft).run.run log =
        (result, (draft.warnings name).reverse ++ log)) ∧
      (∀ error, result = .error error → draft.fault? name = some error) ∧
      ∀ profile, result = .ok profile → draft.Gives name profile := by
  obtain ⟨weight, operations, lengthMin, lengthMax⟩ := draft
  cases weight with
  | none =>
      refine ⟨.error (.missingField name "prob"), fun log => rfl, ?_, by simp⟩
      rintro error ⟨⟩
      rfl
  | some weight =>
      cases operations with
      | none =>
          refine ⟨.error (.missingField name "ops"), fun log => rfl, ?_, by simp⟩
          rintro error ⟨⟩
          rfl
      | some members =>
          by_cases hNone : knownMembers members = []
          · refine ⟨.error (.noOperations name), ?_, ?_, by simp⟩
            · intro log
              rw [ofDraft_of_members, hNone]
              rfl
            · rintro error ⟨⟩
              exact if_pos (knownMembers_eq_nil_iff.mp hNone)
          · refine ⟨.ok { name, weight, operations := knownMembers members
                          lengthMin := lengthMin.getD 0, lengthMax := lengthMax.getD 0 },
              ?_, by simp, ?_⟩
            · intro log
              rw [ofDraft_of_members, if_neg hNone]
              rfl
            · rintro profile ⟨⟩
              constructor
              case faultless => exact if_neg (mt knownMembers_eq_nil_iff.mpr hNone)
              case operations => exact ⟨members, rfl, fun _ _ => mem_knownMembers_iff⟩
              case nonempty => exact hNone
              case ordered => exact knownMembers_sublist members
              all_goals rfl

end StoreBench
