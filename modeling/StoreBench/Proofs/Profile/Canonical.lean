import Mathlib.Data.List.Forall2
import StoreBench.Proofs.Binary64
import StoreBench.Proofs.Profile.Drafts
import StoreBench.Proofs.Profile.Rearranging

/-! The table of a profile document. Profiles come in the order of their names and operations in
that of theirs, whatever the order of the document is. If profiles are at fault, the table fails
with the one whose name comes first. -/
namespace StoreBench

open Json

/-- Small whole weights are read as they are. -/
theorem Json.reads_double_whole {n : Nat} (h : n < Binary64.wholeLimit) :
    Reads Reader.double [.number ⟨false, n, 0, true⟩] (.finite false (n * Binary64.one)) := by
  have hValue : Numeral.value ⟨false, n, 0, true⟩ = .finite false (n * Binary64.one) := by
    simp only [Numeral.value, Binary64.scale_zero h, Bool.false_eq_true, if_false]
  intro rest
  rw [List.singleton_append, Reader.double, Numeral.outOfRange, hValue]
  rfl

namespace ProfileTable

/-- What becomes of profiles that are read one after the other: a table, or the fault of the first
one that has any. The later profiles are then not looked at. -/
inductive Parsed : List (String × ProfileDraft) → Except ParseError ProfileTable →
    List UnknownOperation → Prop where
  | table {entries : List (String × ProfileDraft)} {table : ProfileTable}
      (hProfiles :
        List.Forall₂ (fun entry profile => entry.2.Gives entry.1 profile) entries table) :
      Parsed entries (.ok table) (entries.flatMap fun entry => entry.2.warnings entry.1)
  | fault {before : List (String × ProfileDraft)} {entry : String × ProfileDraft}
      {error : ParseError} (hBefore : ∀ other ∈ before, other.2.fault? other.1 = none)
      (hFault : entry.2.fault? entry.1 = some error) (after : List (String × ProfileDraft)) :
      Parsed (before ++ entry :: after) (.error error)
        ((before ++ [entry]).flatMap fun entry => entry.2.warnings entry.1)

section Warned

variable {α β : Type} {first : Warned α} {next : α → Warned β} {log after : List UnknownOperation}

theorem warned_bind_ok {value : α} (h : first.run.run log = (.ok value, after)) :
    (first >>= next).run.run log = (next value).run.run after := by
  have hFirst : first.run.run log = pure (.ok value, after) := h
  rw [ExceptT.run_bind, StateT.run_bind, hFirst, pure_bind]

theorem warned_bind_error {error : ParseError} (h : first.run.run log = (.error error, after)) :
    (first >>= next).run.run log = (.error error, after) := by
  have hFirst : first.run.run log = pure (.error error, after) := h
  rw [ExceptT.run_bind, StateT.run_bind, hFirst, pure_bind]
  rfl

end Warned

theorem mapM_ofDraft_run (entries : List (String × ProfileDraft)) :
    ∃ result warnings, Parsed entries result warnings ∧
      ∀ log, (entries.mapM fun entry => Profile.ofDraft entry.1 entry.2 : Warned _).run.run log =
        (result, warnings.reverse ++ log) := by
  induction entries with
  | nil => exact ⟨.ok [], [], .table .nil, fun log => rfl⟩
  | cons entry rest ih =>
      obtain ⟨first, hFirst, hError, hProfile⟩ := Profile.ofDraft_run entry.1 entry.2
      cases first with
      | error error =>
          have hFault : Parsed ([] ++ entry :: rest) (.error error) _ :=
            .fault (by simp) (hError error rfl) rest
          refine ⟨.error error, entry.2.warnings entry.1, ?_, ?_⟩
          · simpa using hFault
          · intro log
            rw [List.mapM_cons, warned_bind_error (hFirst log)]
      | ok profile =>
          have hGives := hProfile profile rfl
          obtain ⟨result, warnings, hParsed, hRest⟩ := ih
          cases hParsed with
          | @table _ table hProfiles =>
              refine ⟨.ok (profile :: table), _, .table (.cons hGives hProfiles), ?_⟩
              intro log
              rw [List.mapM_cons, warned_bind_ok (hFirst log), warned_bind_ok (hRest _),
                List.flatMap_cons, List.reverse_append, List.append_assoc]
              rfl
          | @fault before faulty error hBefore hFault after =>
              have hNone : ∀ other ∈ entry :: before, other.2.fault? other.1 = none :=
                List.forall_mem_cons.mpr ⟨hGives.faultless, hBefore⟩
              refine ⟨.error error, _, .fault hNone hFault after, ?_⟩
              intro log
              rw [List.mapM_cons, warned_bind_ok (hFirst log), warned_bind_error (hRest _),
                List.cons_append, List.flatMap_cons, List.reverse_append, List.append_assoc]

theorem parse_eq {bytes : Bytes} {members : List (String × ProfileDraft)}
    (h : readMembers bytes = .ok members) :
    parse bytes =
      (((ofMembers members).run.run []).1, ((ofMembers members).run.run []).2.reverse) := by
  rw [parse, h]
  rfl

theorem parsed {bytes : Bytes} {members : List (String × ProfileDraft)}
    (h : readMembers bytes = .ok members) :
    Parsed (sortNamed members) (parse bytes).1 (parse bytes).2 := by
  obtain ⟨result, warnings, hParsed, hRun⟩ := mapM_ofDraft_run (sortNamed members)
  have hMembers : (ofMembers members).run.run [] = (result, warnings.reverse ++ []) := hRun []
  rw [parse_eq h, hMembers, List.append_nil, List.reverse_reverse]
  exact hParsed

/-- What the table of a document is to be. Profiles come in the byte order of their names, and there
is one for each member that counts. Every unknown operation is warned about once. -/
structure Canonical (members : List (String × ProfileDraft)) (table : ProfileTable)
    (warnings : List UnknownOperation) : Prop where
  ascending : table.Pairwise fun profile other => NameBefore profile.name other.name
  given : ∀ profile ∈ table, ∃ draft, Effective members (profile.name, draft) ∧
    draft.Gives profile.name profile
  complete : ∀ member, Effective members member → ∃ profile ∈ table, profile.name = member.1
  warned_ascending : warnings.Pairwise WarnedBefore
  warned : ∀ name spelling, ⟨name, spelling⟩ ∈ warnings ↔ Unknown spelling ∧
    ∃ draft operations, Effective members (name, draft) ∧ draft.operations = some operations ∧
      spelling ∈ operations.map Prod.fst

theorem Parsed.canonical {members : List (String × ProfileDraft)} {table : ProfileTable}
    {warnings : List UnknownOperation} (h : Parsed (sortNamed members) (.ok table) warnings) :
    Canonical members table warnings := by
  have hSorted := sortNamed_pairwise members
  have hEffective : ∀ member, member ∈ sortNamed members ↔ Effective members member :=
    fun _ => mem_sortNamed_iff
  generalize sortNamed members = entries at h hSorted hEffective
  cases h with
  | table hProfiles =>
      have hNames : table.map Profile.name = entries.map Prod.fst := by
        symm
        rw [← List.forall₂_eq_eq_eq, List.forall₂_map_left_iff, List.forall₂_map_right_iff]
        exact hProfiles.imp fun _ _ hGives => hGives.name_eq.symm
      constructor
      case ascending =>
        rw [← List.pairwise_map (f := Profile.name) (R := NameBefore), hNames, List.pairwise_map]
        exact hSorted
      case given =>
        intro profile hProfile
        obtain ⟨⟨name, draft⟩, hEntry, hGives⟩ := exists_related hProfiles.flip hProfile
        obtain rfl : profile.name = name := hGives.name_eq
        exact ⟨draft, (hEffective _).mp hEntry, hGives⟩
      case complete =>
        intro member hMember
        have hEntry := (hEffective member).mpr hMember
        obtain ⟨profile, hProfile, hGives⟩ := exists_related hProfiles hEntry
        exact ⟨profile, hProfile, hGives.name_eq⟩
      case warned_ascending =>
        rw [List.pairwise_flatMap]
        refine ⟨fun entry _ => entry.2.warnings_pairwise entry.1, hSorted.imp ?_⟩
        intro entry other hBefore warning hWarning next hNext
        rw [← ProfileDraft.profile_of_mem_warnings hWarning,
          ← ProfileDraft.profile_of_mem_warnings hNext] at hBefore
        exact Or.inl hBefore
      case warned =>
        intro name spelling
        rw [List.mem_flatMap]
        constructor
        · rintro ⟨⟨found, draft⟩, hEntry, hWarning⟩
          obtain ⟨profile, _, hGives⟩ := exists_related hProfiles hEntry
          obtain rfl : name = found := ProfileDraft.profile_of_mem_warnings hWarning
          obtain ⟨hUnknown, operations, hOperations, hListed⟩ := hGives.mem_warnings_iff.mp hWarning
          exact ⟨hUnknown, draft, operations, (hEffective _).mp hEntry, hOperations, hListed⟩
        · rintro ⟨hUnknown, draft, operations, hMember, hOperations, hListed⟩
          have hEntry := (hEffective _).mpr hMember
          obtain ⟨profile, _, hGives⟩ := exists_related hProfiles hEntry
          exact ⟨(name, draft), hEntry,
            hGives.mem_warnings_iff.mpr ⟨hUnknown, operations, hOperations, hListed⟩⟩

/-- The profile is at fault, and every other one that is has a name after it. -/
def FirstFaulty (members : List (String × ProfileDraft)) (error : ParseError) : Prop :=
  ∃ member, Effective members member ∧ member.2.fault? member.1 = some error ∧
    ∀ other, Effective members other → other.2.fault? other.1 ≠ none →
      other = member ∨ NameBefore member.1 other.1

theorem Parsed.error_iff {members : List (String × ProfileDraft)}
    {result : Except ParseError ProfileTable} {warnings : List UnknownOperation}
    (h : Parsed (sortNamed members) result warnings) (error : ParseError) :
    result = .error error ↔ FirstFaulty members error := by
  have hSorted := sortNamed_pairwise members
  have hEffective : ∀ member, member ∈ sortNamed members ↔ Effective members member :=
    fun _ => mem_sortNamed_iff
  generalize sortNamed members = entries at h hSorted hEffective
  cases h with
  | table hProfiles =>
      refine iff_of_false (by simp) ?_
      rintro ⟨member, hMember, hFault, _⟩
      obtain ⟨profile, _, hGives⟩ := exists_related hProfiles ((hEffective member).mpr hMember)
      rw [hGives.faultless] at hFault
      cases hFault
  | @fault before entry first hBefore hFault after =>
      have hEntry : Effective members entry := (hEffective entry).mp (by simp)
      have hAfter : ∀ other ∈ after, NameBefore entry.1 other.1 :=
        (List.pairwise_cons.mp (List.pairwise_append.mp hSorted).2.1).1
      constructor
      · rintro ⟨⟩
        refine ⟨entry, hEntry, hFault, fun other hOther hFaulty => ?_⟩
        rcases List.mem_append.mp ((hEffective other).mpr hOther) with hEarlier | hLater
        · exact absurd (hBefore other hEarlier) hFaulty
        · exact (List.mem_cons.mp hLater).imp_right (hAfter other)
      · rintro ⟨member, hMember, hError, hFirst⟩
        have hSame : member = entry := by
          rcases List.mem_append.mp ((hEffective member).mpr hMember) with hEarlier | hLater
          · rw [hBefore member hEarlier] at hError
            cases hError
          rcases List.mem_cons.mp hLater with hSame | hLater
          · exact hSame
          rcases hFirst entry hEntry (by simp [hFault]) with hSame | hEarlier
          · exact hSame.symm
          · exact absurd hEarlier (hAfter member hLater).asymm
        rw [hSame, hFault] at hError
        cases hError
        rfl

/-- The order of a document does not matter, neither that of its profiles nor that of their
operations, if none of them is listed twice: the table or the error is the same, and so are the
warnings. The table is canonical, and the error is that of the first faulty name. -/
theorem parse_canonical (bytes : Bytes) (members : List (String × ProfileDraft))
    (hRead : readMembers bytes = .ok members) :
    (∃ parts, Token.lex bytes = braced parts ∧
      List.Forall₂ (ReadsMember ProfileDraft.read) parts members) ∧
    (∀ (parts others : List (List Token)) (other : Bytes), Token.lex bytes = braced parts →
      List.Forall₂ (ReadsMember ProfileDraft.read) parts members → (members.map Prod.fst).Nodup →
      Token.lex other = braced others → SameDocument parts others → parse other = parse bytes) ∧
    (∀ (other : Bytes) (moved : List (String × ProfileDraft)), readMembers other = .ok moved →
      Rearranged members moved → parse other = parse bytes) ∧
    (∀ table, (parse bytes).1 = .ok table → Canonical members table (parse bytes).2) ∧
    ∀ error, (parse bytes).1 = .error error ↔ FirstFaulty members error := by
  have hMoved (other : Bytes) (moved : List (String × ProfileDraft))
      (hOther : readMembers other = .ok moved) (hRearranged : Rearranged members moved) :
      parse other = parse bytes := by
    rw [parse_eq hRead, parse_eq hOther, ofMembers_rearranged hRearranged]
  refine ⟨readMembers_eq_ok_iff.mp hRead, ?_, hMoved, ?_, (parsed hRead).error_iff⟩
  · intro parts others other _ hParts hNames hOther hSame
    obtain ⟨moved, hOthers, hRearranged⟩ := hSame.exists_rearranged hParts hNames
    exact hMoved other moved (readMembers_eq_ok_iff.mpr ⟨others, hOther, hOthers⟩) hRearranged
  · intro table hTable
    have hParsed := parsed hRead
    rw [hTable] at hParsed
    exact hParsed.canonical

/-- Two documents that differ in the order of profiles and operations, and a third one with two
faulty profiles. -/
theorem parse_canonical_two_orders :
    let first := Bytes.ofText (
      "\x7b\"b\":\x7b\"prob\":60,\"ops\":\x7b\"put\":70,\"scan\":1,\"get\":30\x7d\x7d," ++
      "\"a\":\x7b\"prob\":40,\"ops\":\x7b\"get\":100\x7d\x7d\x7d")
    let second := Bytes.ofText (
      "\x7b\"a\":\x7b\"prob\":40,\"ops\":\x7b\"get\":100\x7d\x7d," ++
      "\"b\":\x7b\"prob\":60,\"ops\":\x7b\"get\":30,\"put\":70,\"scan\":1\x7d\x7d\x7d")
    let faulty := Bytes.ofText "\x7b\"z\":\x7b\x7d,\"y\":\x7b\"prob\":1\x7d\x7d"
    let whole (n : Nat) : Binary64 := .finite false (n * Binary64.one)
    let members : List (String × ProfileDraft) :=
      [("b", ⟨some (whole 60), some [("put", whole 70), ("scan", whole 1), ("get", whole 30)],
        none, none⟩), ("a", ⟨some (whole 40), some [("get", whole 100)], none, none⟩)]
    let table : ProfileTable := [⟨"a", whole 40, [(.get, whole 100)], 0, 0⟩,
      ⟨"b", whole 60, [(.get, whole 30), (.put, whole 70)], 0, 0⟩]
    readMembers first = .ok members ∧ parse first = (.ok table, [⟨"b", "scan"⟩]) ∧
      parse second = parse first ∧ Canonical members table [⟨"b", "scan"⟩] ∧
      (parse faulty).1 = .error (.missingField "y" "ops") := by
  intro first second faulty whole members table
  let member (name : String) (value : List Token) : List Token :=
    .text (Bytes.ofText name) none :: .colon :: value
  let number (name : String) (n : Nat) := member name [.number ⟨false, n, 0, true⟩]
  let profile (weight : Nat) (entries : List (List Token)) :=
    braced [number "prob" weight, member "ops" (braced entries)]
  let entries := [number "put" 70, number "scan" 1, number "get" 30]
  let others := [number "get" 30, number "put" 70, number "scan" 1]
  let last := member "a" (profile 40 [number "get" 100])
  have hFirst : readMembers first = .ok members := by decide +kernel
  have hFaulty : readMembers faulty =
      .ok [("z", {}), ("y", { weight := some (whole 1) })] := by decide +kernel
  have hTable : parse first = (.ok table, [⟨"b", "scan"⟩]) := by decide +kernel
  have hParts : List.Forall₂ (ReadsMember ProfileDraft.read)
      [member "b" (profile 60 entries), last] members := by
    refine .cons ?_ (.cons ?_ .nil) <;>
      exact .intro (by decide +kernel) (ProfileDraft.local_read.reads (by decide +kernel))
  have hEntries : List.Forall₂ (ReadsMember Reader.double) entries
      [("put", whole 70), ("scan", whole 1), ("get", whole 30)] := by
    refine .cons ?_ (.cons ?_ (.cons ?_ .nil)) <;>
      exact .intro (by decide +kernel) (reads_double_whole (by decide))
  have hProfile : ProfileDraft.SameProfile (profile 60 entries) (profile 60 others) := by
    have hNumber : Reads Reader.double [.number ⟨false, 60, 0, true⟩] (whole 60) :=
      reads_double_whole (by decide)
    have hWeight : Text.decode (Bytes.ofText "prob") none = .ok "prob" := by decide +kernel
    have hName : Text.decode (Bytes.ofText "ops") none = .ok "ops" := by decide +kernel
    have hMembers : ReadsFields ProfileDraft.fields [] {}
        ([number "prob" 60] ++ [member "ops" (braced entries)]) _ :=
      .field hWeight rfl rfl ((hNumber.optional (by simp)).map _)
        (.field hName rfl rfl (ProfileDraft.read_operations rfl hEntries _) (.nil _ rfl))
    exact .object hName hMembers hEntries (by simp) (by decide +kernel)
  have hDocument : SameDocument [member "b" (profile 60 entries), last]
      [last, member "b" (profile 60 others)] :=
    ⟨_, .swap _ _ _, .cons ⟨.same _⟩ (.cons ⟨hProfile⟩ .nil)⟩
  obtain ⟨_, hSame, _, hCanonical, _⟩ := parse_canonical first members hFirst
  obtain ⟨_, _, _, _, hFault⟩ := parse_canonical faulty _ hFaulty
  refine ⟨hFirst, hTable, ?_, ?_, (hFault _).mpr ?_⟩
  · exact hSame _ _ second (by decide +kernel) hParts (by decide) (by decide +kernel) hDocument
  · have hGiven := hCanonical table (congrArg Prod.fst hTable)
    rwa [hTable] at hGiven
  · refine ⟨("y", { weight := some (whole 1) }), ⟨[("z", {})], [], rfl, by simp⟩, rfl, ?_⟩
    intro other hOther _
    rcases List.mem_cons.mp hOther.mem with rfl | hLast
    · exact Or.inr (by decide)
    · exact Or.inl (List.mem_singleton.mp hLast)

end ProfileTable

end StoreBench
