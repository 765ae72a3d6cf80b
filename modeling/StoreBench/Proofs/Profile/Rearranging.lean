import Mathlib.Data.List.Perm.Basic
import StoreBench.Proofs.Json.Records
import StoreBench.Proofs.Profile.Names

/-! Profile documents in another order. The members of a document can change places, and so can the
operations of a profile, if none of them is listed twice: the document is still read, and what is
read has changed places in the same way. The table does not depend on it. -/
namespace StoreBench

open Json

namespace ProfileDraft

/-- The draft with other operations. -/
def withOperations (draft : ProfileDraft) (operations : Option (List (String × Binary64))) :
    ProfileDraft := { draft with operations }

theorem local_fields : ∀ field ∈ fields, ∀ draft, Local (field.read draft) := by
  simp only [fields, List.forall_mem_cons]
  refine ⟨fun draft => ?_, fun draft => ?_, fun draft => ?_, fun draft => ?_, by simp⟩
  · exact local_double.optional.map _
  · exact local_double.dictionary.optional.map _
  · exact local_word.optional.map _
  · exact local_word.optional.map _

theorem local_read : Local read := local_record local_fields {}

variable {draft next last : ProfileDraft} {value : List Token}

/-- What is read into another field than the operations does not depend on these. -/
theorem reads_apart {α : Type} {item : Reader α} (update : ProfileDraft → α → ProfileDraft)
    (hUpdate : ∀ draft found operations, update (draft.withOperations operations) found =
      (update draft found).withOperations operations)
    (h : Reads (do return update draft (← item)) value next)
    (operations : Option (List (String × Binary64))) :
    next.operations = draft.operations ∧
      Reads (do return update (draft.withOperations operations) (← item)) value
        (next.withOperations operations) := by
  obtain ⟨found, _, _, hNext⟩ := bind_eq_ok (h [])
  cases hNext
  have hKept : update draft found = (update draft found).withOperations draft.operations :=
    hUpdate draft found draft.operations
  refine ⟨by rw [hKept]; rfl, fun rest => ?_⟩
  obtain ⟨other, more, hOther, hNext⟩ := bind_eq_ok (h rest)
  have hPair := Except.ok.inj hNext
  have hSame : update draft other = update draft found := congrArg Prod.fst hPair
  obtain rfl : more = rest := congrArg Prod.snd hPair
  simp only [bind, StateT.bind, hOther]
  rw [← hSame, ← hUpdate]
  rfl

/-- All fields but one have nothing to do with the operations. -/
theorem read_apart {field : Reader.Field ProfileDraft} (hField : field ∈ fields)
    (hName : field.name ≠ "ops") (h : Reads (field.read draft) value next)
    (operations : Option (List (String × Binary64))) :
    next.operations = draft.operations ∧
      Reads (field.read (draft.withOperations operations)) value
        (next.withOperations operations) := by
  simp only [fields, List.mem_cons, List.not_mem_nil, or_false] at hField
  rcases hField with rfl | rfl | rfl | rfl
  · exact reads_apart (fun d found => { d with weight := found }) (fun _ _ _ => rfl) h operations
  · exact absurd rfl hName
  · exact reads_apart (fun d found => { d with lengthMin := found }) (fun _ _ _ => rfl) h operations
  · exact reads_apart (fun d found => { d with lengthMax := found }) (fun _ _ _ => rfl) h operations

/-- Once the operations have been read, the other members leave them alone. -/
theorem fields_apart {seen : List String} {parts : List (List Token)}
    (h : ReadsFields fields seen draft parts last) (hSeen : seen.contains "ops" = true)
    (operations : Option (List (String × Binary64))) :
    last.operations = draft.operations ∧
      ReadsFields fields seen (draft.withOperations operations) parts
        (last.withOperations operations) := by
  induction h with
  | nil draft hAll => exact ⟨rfl, .nil _ hAll⟩
  | passed hName hOther hValue _ ih =>
      obtain ⟨hSame, hMore⟩ := ih hSeen
      exact ⟨hSame, .passed hName hOther hValue hMore⟩
  | @field _ _ name _ seen _ _ _ _ field hName hField hUnseen hValue _ ih =>
      have hFound : field.name = name := by simpa using List.find?_some hField
      have hOther : field.name ≠ "ops" := by
        intro hOps
        rw [← hFound, hOps, hSeen] at hUnseen
        cases hUnseen
      have hLater : (name :: seen).contains "ops" = true := by
        rw [List.contains_cons, hSeen, Bool.or_true]
      have hApart := read_apart (List.mem_of_find?_eq_some hField) hOther hValue operations
      obtain ⟨hSame, hMore⟩ := ih hLater
      exact ⟨hSame.trans hApart.1, .field hName hField hUnseen hApart.2 hMore⟩

/-- The items of an array that are not operations leave these alone as well. -/
theorem fills_apart {todo : List (Reader.Field ProfileDraft)} {parts : List (List Token)}
    (h : Fills todo parts draft last) (hTodo : ∀ field ∈ todo, field ∈ fields ∧ field.name ≠ "ops")
    (operations : Option (List (String × Binary64))) :
    last.operations = draft.operations ∧
      Fills todo parts (draft.withOperations operations) (last.withOperations operations) := by
  induction h with
  | nil => exact ⟨rfl, .nil _⟩
  | cons hRead _ ih =>
      obtain ⟨⟨hField, hName⟩, hRest⟩ := List.forall_mem_cons.mp hTodo
      have hApart := read_apart hField hName hRead operations
      obtain ⟨hSame, hMore⟩ := ih hRest
      exact ⟨hSame.trans hApart.1, .cons hApart.2 hMore⟩

variable {raw : Bytes} {ending : Option DocumentFault} {entries others : List (List Token)}
  {operations listed : List (String × Binary64)}

/-- What the field of the operations reads from an object. -/
theorem read_operations {field : Reader.Field ProfileDraft}
    (hField : fields.find? (fun field => field.name == "ops") = some field)
    (hEntries : List.Forall₂ (ReadsMember Reader.double) entries operations)
    (draft : ProfileDraft) :
    Reads (field.read draft) (braced entries) (draft.withOperations (some operations)) := by
  cases hField
  have hObject : Reads (Reader.dictionary Reader.double) (braced entries) operations :=
    reads_dictionary hEntries
  exact (hObject.optional (by simp)).map fun found => draft.withOperations found

/-- Other operations in the place of those that were read. -/
theorem fields_replaced (hName : Text.decode raw ending = .ok "ops")
    (hEntries : List.Forall₂ (ReadsMember Reader.double) entries operations)
    (hOthers : List.Forall₂ (ReadsMember Reader.double) others listed)
    {seen : List String} {before after : List (List Token)}
    (h : ReadsFields fields seen draft
      (before ++ (.text raw ending :: .colon :: braced entries) :: after) last) :
    last.operations = some operations ∧ ReadsFields fields seen draft
      (before ++ (.text raw ending :: .colon :: braced others) :: after)
      (last.withOperations (some listed)) := by
  induction before generalizing seen draft with
  | nil =>
      rw [List.nil_append] at h ⊢
      cases h with
      | passed hOps hOther =>
          obtain rfl := Except.ok.inj (hOps.symm.trans hName)
          cases hOther
      | @field _ _ _ _ _ _ next _ _ field hOps hField hUnseen hValue hMore =>
          obtain rfl := Except.ok.inj (hOps.symm.trans hName)
          -- A second member for the operations would be refused, so the others leave them alone.
          have hNext := hValue.unique (read_operations hField hEntries draft)
          obtain ⟨hSame, hOther⟩ := fields_apart hMore (by simp) (some listed)
          subst hNext
          exact ⟨hSame, .field hName hField hUnseen (read_operations hField hOthers draft) hOther⟩
  | cons part before ih =>
      cases h with
      | passed hPart hOther hValue hMore =>
          obtain ⟨hSame, hRest⟩ := ih hMore
          exact ⟨hSame, .passed hPart hOther hValue hRest⟩
      | field hPart hField hUnseen hValue hMore =>
          obtain ⟨hSame, hRest⟩ := ih hMore
          exact ⟨hSame, .field hPart hField hUnseen hValue hRest⟩

theorem fills_replaced (hEntries : List.Forall₂ (ReadsMember Reader.double) entries operations)
    (hOthers : List.Forall₂ (ReadsMember Reader.double) others listed)
    {weight lengthMin lengthMax : List Token}
    (h : Fills fields [weight, braced entries, lengthMin, lengthMax] draft last) :
    last.operations = some operations ∧
      Fills fields [weight, braced others, lengthMin, lengthMax] draft
        (last.withOperations (some listed)) := by
  cases h with
  | @cons _ _ _ _ _ first _ hWeight h =>
      cases h with
      | cons hOperations hLengths =>
          have hField : fields.find? (fun field => field.name == "ops") = some _ := rfl
          have hNext := hOperations.unique (read_operations hField hEntries first)
          subst hNext
          obtain ⟨hSame, hMoved⟩ := fills_apart hLengths (by simp [fields]) (some listed)
          exact ⟨hSame, .cons hWeight (.cons (read_operations hField hOthers first) hMoved)⟩

/-- The operations of a draft in another order, if none of them is listed twice. -/
inductive Reordered : ProfileDraft → ProfileDraft → Prop where
  | same (draft : ProfileDraft) : Reordered draft draft
  | operations {draft : ProfileDraft} {members others : List (String × Binary64)}
      (hMembers : draft.operations = some members) (hNames : (members.map Prod.fst).Nodup)
      (hPerm : members.Perm others) : Reordered draft (draft.withOperations (some others))

/-- The tokens of a profile with its operations in another order, if none of them is listed twice.
The operations are those of a member named for them, or they are the second item of an array. -/
inductive SameProfile : List Token → List Token → Prop where
  | same (value : List Token) : SameProfile value value
  | object {raw : Bytes} {ending : Option DocumentFault} {before after : List (List Token)}
      {entries others : List (List Token)} {operations : List (String × Binary64)}
      {draft : ProfileDraft} (hName : Text.decode raw ending = .ok "ops")
      (hMembers : ReadsFields fields [] {}
        (before ++ (.text raw ending :: .colon :: braced entries) :: after) draft)
      (hEntries : List.Forall₂ (ReadsMember Reader.double) entries operations)
      (hNames : (operations.map Prod.fst).Nodup) (hPerm : entries.Perm others) :
      SameProfile (braced (before ++ (.text raw ending :: .colon :: braced entries) :: after))
        (braced (before ++ (.text raw ending :: .colon :: braced others) :: after))
  | array {weight lengthMin lengthMax : List Token} {entries others : List (List Token)}
      {operations : List (String × Binary64)} {draft : ProfileDraft}
      (hItems : ∀ item ∈ [weight, lengthMin, lengthMax], IsItem item)
      (hFields : Fills fields [weight, braced entries, lengthMin, lengthMax] {} draft)
      (hEntries : List.Forall₂ (ReadsMember Reader.double) entries operations)
      (hNames : (operations.map Prod.fst).Nodup) (hPerm : entries.Perm others) :
      SameProfile (arrayTokens [weight, braced entries, lengthMin, lengthMax])
        (arrayTokens [weight, braced others, lengthMin, lengthMax])

theorem exists_perm {α : Type} {item : Reader α} {parts others : List (List Token)}
    {values : List (String × α)} (hPerm : parts.Perm others)
    (h : List.Forall₂ (ReadsMember item) parts values) :
    ∃ moved, List.Forall₂ (ReadsMember item) others moved ∧ values.Perm moved := by
  obtain ⟨moved, hMoved, hSame⟩ := List.perm_comp_forall₂ hPerm.symm h
  exact ⟨moved, hMoved, hSame.symm⟩

/-- A profile in another order is read as a draft in another order. -/
theorem SameProfile.exists_reads {value other : List Token} (h : SameProfile value other)
    (hRead : Reads read value draft) : ∃ moved, Reads read other moved ∧ Reordered draft moved := by
  cases h with
  | same => exact ⟨draft, hRead, .same draft⟩
  | object hName hMembers hEntries hNames hPerm =>
      obtain rfl := hRead.unique (reads_object hMembers)
      obtain ⟨listed, hOthers, hListed⟩ := exists_perm hPerm hEntries
      obtain ⟨hSame, hMoved⟩ := fields_replaced hName hEntries hOthers hMembers
      exact ⟨_, reads_object hMoved, .operations hSame hNames hListed⟩
  | @array weight lengthMin lengthMax entries others _ _ hItems hFields hEntries hNames hPerm =>
      have hAll (members : List (List Token)) :
          ∀ item ∈ [weight, braced members, lengthMin, lengthMax], IsItem item := by
        have hBraced : IsItem (braced members) := ⟨.openBrace, _, rfl, by simp⟩
        simp only [List.forall_mem_cons] at hItems ⊢
        exact ⟨hItems.1, hBraced, hItems.2⟩
      obtain rfl := hRead.unique (reads_positional (hAll entries) hFields)
      obtain ⟨listed, hOthers, hListed⟩ := exists_perm hPerm hEntries
      obtain ⟨hSame, hMoved⟩ := fills_replaced hEntries hOthers hFields
      exact ⟨_, reads_positional (hAll others) hMoved, .operations hSame hNames hListed⟩

end ProfileDraft

namespace ProfileTable

theorem readMembers_eq_ok_iff {bytes : Bytes} {members : List (String × ProfileDraft)} :
    readMembers bytes = .ok members ↔ ∃ parts, Token.lex bytes = braced parts ∧
      List.Forall₂ (ReadsMember ProfileDraft.read) parts members := by
  rw [← document_dictionary_iff ProfileDraft.local_read, readMembers, readDocument]
  split <;> simp_all

/-- A member of a document, with the operations of its profile in another order. -/
inductive SameMember : List Token → List Token → Prop where
  | intro {name : Token} {value other : List Token}
      (hValue : ProfileDraft.SameProfile value other) :
      SameMember (name :: .colon :: value) (name :: .colon :: other)

/-- The members of a document in another order, and those of its operations as well. -/
def SameDocument (parts others : List (List Token)) : Prop :=
  ∃ middle, parts.Perm middle ∧ List.Forall₂ SameMember middle others

/-- What two members are read as if they differ in the order of operations only. -/
def SameEntry (member other : String × ProfileDraft) : Prop :=
  member.1 = other.1 ∧ member.2.Reordered other.2

theorem SameMember.exists_reads {part other : List Token} {member : String × ProfileDraft}
    (h : SameMember part other) (hRead : ReadsMember ProfileDraft.read part member) :
    ∃ moved, ReadsMember ProfileDraft.read other moved ∧ SameEntry member moved := by
  obtain ⟨hValue⟩ := h
  cases hRead with
  | @intro _ _ _ name _ hName hReads =>
      obtain ⟨moved, hMoved, hReordered⟩ := hValue.exists_reads hReads
      exact ⟨(name, moved), .intro hName hMoved, rfl, hReordered⟩

theorem exists_same_entries {parts others : List (List Token)}
    {members : List (String × ProfileDraft)} (h : List.Forall₂ SameMember parts others)
    (hParts : List.Forall₂ (ReadsMember ProfileDraft.read) parts members) :
    ∃ moved, List.Forall₂ (ReadsMember ProfileDraft.read) others moved ∧
      List.Forall₂ SameEntry members moved := by
  induction h generalizing members with
  | nil =>
      cases hParts
      exact ⟨[], .nil, .nil⟩
  | cons hFirst _ ih =>
      cases hParts with
      | cons hRead hRest =>
          obtain ⟨first, hMoved, hEntry⟩ := hFirst.exists_reads hRead
          obtain ⟨moved, hOthers, hEntries⟩ := ih hRest
          exact ⟨first :: moved, .cons hMoved hOthers, .cons hEntry hEntries⟩

/-- The profiles of a document in another order, if none of them is listed twice, and the operations
of each of them as well. -/
def Rearranged (members others : List (String × ProfileDraft)) : Prop :=
  (members.map Prod.fst).Nodup ∧ ∃ middle, members.Perm middle ∧
    List.Forall₂ SameEntry middle others

/-- What is read from a document in another order is in that order too. -/
theorem SameDocument.exists_rearranged {parts others : List (List Token)}
    {members : List (String × ProfileDraft)} (h : SameDocument parts others)
    (hParts : List.Forall₂ (ReadsMember ProfileDraft.read) parts members)
    (hNames : (members.map Prod.fst).Nodup) :
    ∃ moved, List.Forall₂ (ReadsMember ProfileDraft.read) others moved ∧
      Rearranged members moved := by
  obtain ⟨middle, hPerm, hSame⟩ := h
  obtain ⟨between, hMiddle, hBetween⟩ := ProfileDraft.exists_perm hPerm hParts
  obtain ⟨moved, hOthers, hEntries⟩ := exists_same_entries hSame hMiddle
  exact ⟨moved, hOthers, hNames, between, hBetween, hEntries⟩

theorem ofDraft_reordered {draft other : ProfileDraft} (h : draft.Reordered other) (name : String) :
    Profile.ofDraft name draft = Profile.ofDraft name other := by
  cases h with
  | same => rfl
  | operations hMembers hNames hPerm =>
      obtain ⟨weight, operations, lengthMin, lengthMax⟩ := draft
      cases hMembers
      cases weight with
      | none => rfl
      | some weight =>
          simp only [Profile.ofDraft, ProfileDraft.withOperations, sortNamed_perm hPerm hNames]

/-- Profiles are read by name, so their order does not matter. -/
theorem ofMembers_rearranged {members others : List (String × ProfileDraft)}
    (h : Rearranged members others) : ofMembers members = ofMembers others := by
  obtain ⟨hNames, middle, hPerm, hSame⟩ := h
  let readNamed (member : String × ProfileDraft) : String × Warned Profile :=
    (member.1, Profile.ofDraft member.1 member.2)
  have hRead (members : List (String × ProfileDraft)) :
      ofMembers members = (sortNamed (members.map readNamed)).mapM Prod.snd := by
    rw [sortNamed_map, List.mapM_map]
    rfl
  have hMiddle : middle.map readNamed = others.map readNamed := by
    rw [← List.forall₂_eq_eq_eq, List.forall₂_map_left_iff, List.forall₂_map_right_iff]
    apply hSame.imp
    rintro ⟨name, draft⟩ ⟨_, other⟩ ⟨rfl, hReordered⟩
    exact congrArg (Prod.mk name) (ofDraft_reordered hReordered name)
  have hNamed : ((members.map readNamed).map Prod.fst).Nodup := by
    rw [List.map_map]
    exact hNames
  rw [hRead, hRead, ← hMiddle, sortNamed_perm (hPerm.map readNamed) hNamed]

end ProfileTable

end StoreBench
