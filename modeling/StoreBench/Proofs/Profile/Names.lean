import Mathlib.Data.List.Induction
import Mathlib.Data.List.Nodup
import StoreBench.Profile.Document
import StoreBench.Proofs.Json.Reading

/-! Members in the order of their names. A member counts if no later one has its name, and the
sorted list holds those members, in strictly increasing byte order. Two lists in which the same
members count are therefore sorted into the same list. -/
namespace StoreBench

theorem Bytes.ofText_injective : Function.Injective ofText := by
  intro text other h
  have hText := toText?_ofText text
  rw [h, toText?_ofText] at hText
  exact (Option.some.inj hText).symm

theorem Bytes.compare_lt_iff {bytes other : Bytes} : compare bytes other = .lt ↔ bytes < other := by
  induction bytes generalizing other with
  | nil =>
      cases other with
      | nil => exact iff_of_false (by decide) (List.lt_irrefl [])
      | cons c more => exact iff_of_true List.compare_nil_cons (List.nil_lt_cons c more)
  | cons b rest ih =>
      cases other with
      | nil => exact iff_of_false (by simp [List.compare_cons_nil]) (List.not_lt_nil _)
      | cons c more =>
          rw [List.compare_cons_cons, Ordering.then_eq_lt, List.cons_lt_cons_iff, ih,
            Std.compare_eq_lt, Std.compare_eq_iff_eq]

/-- The name comes first in byte order. -/
def NameBefore (name other : String) : Prop := Bytes.ofText name < Bytes.ofText other

instance (name other : String) : Decidable (NameBefore name other) :=
  inferInstanceAs (Decidable (Bytes.ofText name < Bytes.ofText other))

theorem NameBefore.asymm {name other : String} (h : NameBefore name other) :
    ¬ NameBefore other name := List.lt_asymm h

theorem NameBefore.ne {name other : String} (h : NameBefore name other) : name ≠ other := by
  rintro rfl
  exact h.asymm h

section Members

variable {α β : Type}

/-- The member counts: it is the last one of its name. -/
def Effective (members : List (String × α)) (member : String × α) : Prop :=
  ∃ before after, members = before ++ member :: after ∧ ∀ other ∈ after, other.1 ≠ member.1

variable {members others : List (String × α)} {member last : String × α}

theorem effective_append_iff :
    Effective (members ++ [last]) member ↔
      member = last ∨ member.1 ≠ last.1 ∧ Effective members member := by
  constructor
  · rintro ⟨before, after, hCut, hAfter⟩
    rcases List.eq_nil_or_concat after with rfl | ⟨front, other, rfl⟩
    · exact Or.inl (List.cons.inj (List.append_inj' hCut rfl).2).1.symm
    · rw [List.concat_eq_append] at hCut hAfter
      rw [← List.cons_append, ← List.append_assoc] at hCut
      obtain ⟨hMembers, hLast⟩ := List.append_inj' hCut rfl
      cases hLast
      rw [List.forall_mem_append] at hAfter
      exact Or.inr ⟨(hAfter.2 last List.mem_cons_self).symm, before, front, hMembers, hAfter.1⟩
  · rintro (rfl | ⟨hName, before, after, rfl, hAfter⟩)
    · exact ⟨members, [], rfl, by simp⟩
    · refine ⟨before, after ++ [last], by simp, ?_⟩
      rw [List.forall_mem_append]
      exact ⟨hAfter, by simpa using hName.symm⟩

theorem Effective.mem (h : Effective members member) : member ∈ members := by
  obtain ⟨before, after, rfl, _⟩ := h
  simp

/-- One of the members of a name counts. -/
theorem exists_effective (h : member ∈ members) :
    ∃ found, Effective members found ∧ found.1 = member.1 := by
  induction members using List.reverseRecOn with
  | nil => cases h
  | append_singleton members last ih =>
      by_cases hName : member.1 = last.1
      · exact ⟨last, effective_append_iff.mpr (Or.inl rfl), hName.symm⟩
      · have hMember : member ∈ members := by
          rcases List.mem_append.mp h with hEarlier | hLast
          · exact hEarlier
          · rw [List.mem_singleton.mp hLast] at hName
            exact absurd rfl hName
        obtain ⟨found, hFound, hSame⟩ := ih hMember
        exact ⟨found, effective_append_iff.mpr (Or.inr ⟨hSame ▸ hName, hFound⟩), hSame⟩

/-- If no name repeats, all members count. -/
theorem effective_iff_mem (hNames : (members.map Prod.fst).Nodup) :
    Effective members member ↔ member ∈ members := by
  refine ⟨Effective.mem, fun hMember => ?_⟩
  obtain ⟨before, after, rfl⟩ := List.append_of_mem hMember
  refine ⟨before, after, rfl, ?_⟩
  intro other hOther hSame
  rw [List.map_append, List.map_cons, List.nodup_append, List.nodup_cons] at hNames
  exact hNames.2.1.1 (hSame ▸ List.mem_map_of_mem hOther)

/-- Whether a member counts is a matter of names alone. -/
theorem effective_map_iff (f : String × α → β) {result : String × β} :
    Effective (members.map fun member => (member.1, f member)) result ↔
      ∃ member, Effective members member ∧ (member.1, f member) = result := by
  constructor
  · rintro ⟨front, rest, hCut, hRest⟩
    obtain ⟨before, tail, rfl, rfl, hTail⟩ := List.map_eq_append_iff.mp hCut
    obtain ⟨member, after, rfl, rfl, rfl⟩ := List.map_eq_cons_iff.mp hTail
    rw [List.forall_mem_map] at hRest
    exact ⟨member, ⟨before, after, rfl, hRest⟩, rfl⟩
  · rintro ⟨member, ⟨before, after, rfl, hAfter⟩, rfl⟩
    refine ⟨before.map fun member => (member.1, f member),
      after.map fun member => (member.1, f member), by simp, ?_⟩
    rw [List.forall_mem_map]
    exact hAfter

/-- Under the bytes of a name stands the member of this name that counts. -/
theorem getElem?_byName {key : Bytes} :
    (byName members)[key]? = some member ↔
      Effective members member ∧ Bytes.ofText member.1 = key := by
  induction members using List.reverseRecOn with
  | nil =>
      refine iff_of_false (by simp [byName]) ?_
      rintro ⟨h, _⟩
      exact absurd h.mem List.not_mem_nil
  | append_singleton members last ih =>
      have hInserted : byName (members ++ [last]) =
          (byName members).insert (Bytes.ofText last.1) last := by
        simp [byName]
      rw [hInserted, Std.TreeMap.getElem?_insert, effective_append_iff]
      by_cases hKey : Bytes.ofText last.1 = key
      · subst hKey
        rw [if_pos (Std.compare_eq_iff_eq.mpr rfl), Option.some_inj, Bytes.ofText_injective.eq_iff]
        constructor
        · rintro rfl
          exact ⟨Or.inl rfl, rfl⟩
        · rintro ⟨rfl | ⟨hOther, _⟩, hName⟩
          · rfl
          · exact absurd hName hOther
      · rw [if_neg (fun h => hKey (Std.compare_eq_iff_eq.mp h)), ih]
        constructor
        · rintro ⟨hEffective, rfl⟩
          exact ⟨Or.inr ⟨fun hSame => hKey (congrArg Bytes.ofText hSame.symm), hEffective⟩, rfl⟩
        · rintro ⟨rfl | ⟨_, hEffective⟩, hName⟩
          · exact absurd hName hKey
          · exact ⟨hEffective, hName⟩

theorem mem_sortNamed_iff : member ∈ sortNamed members ↔ Effective members member := by
  rw [sortNamed, List.mem_map]
  constructor
  · rintro ⟨⟨key, found⟩, hFound, rfl⟩
    exact (getElem?_byName.mp (Std.TreeMap.mem_toList_iff_getElem?_eq_some.mp hFound)).1
  · intro h
    exact ⟨(Bytes.ofText member.1, member),
      Std.TreeMap.mem_toList_iff_getElem?_eq_some.mpr (getElem?_byName.mpr ⟨h, rfl⟩), rfl⟩

theorem sortNamed_pairwise (members : List (String × α)) :
    (sortNamed members).Pairwise fun member other => NameBefore member.1 other.1 := by
  rw [sortNamed, List.pairwise_map]
  apply List.Pairwise.imp_of_mem _ Std.TreeMap.ordered_keys_toList
  rintro ⟨key, member⟩ ⟨next, other⟩ hMember hOther hLess
  have hKey := (getElem?_byName.mp (Std.TreeMap.mem_toList_iff_getElem?_eq_some.mp hMember)).2
  have hNext := (getElem?_byName.mp (Std.TreeMap.mem_toList_iff_getElem?_eq_some.mp hOther)).2
  rw [NameBefore, hKey, hNext]
  exact Bytes.compare_lt_iff.mp hLess

/-- The sorted list is the only one of its order that holds the members that count. -/
theorem eq_sortNamed {sorted : List (String × α)}
    (hSorted : sorted.Pairwise fun member other => NameBefore member.1 other.1)
    (hMembers : ∀ member, member ∈ sorted ↔ Effective members member) :
    sorted = sortNamed members := by
  have hNodup {list : List (String × α)}
      (h : list.Pairwise fun member other => NameBefore member.1 other.1) : list.Nodup :=
    h.imp fun hBefore hSame => hBefore.ne (congrArg Prod.fst hSame)
  have hOrder := sortNamed_pairwise members
  apply List.Perm.eq_of_pairwise _ hSorted hOrder
  · rw [List.perm_ext_iff_of_nodup (hNodup hSorted) (hNodup hOrder)]
    exact fun member => (hMembers member).trans mem_sortNamed_iff.symm
  · intro member other _ _ hBefore hAfter
    exact absurd hAfter hBefore.asymm

/-- Members without repeated names are sorted alike in whatever order they stand. -/
theorem sortNamed_perm (h : members.Perm others) (hNames : (members.map Prod.fst).Nodup) :
    sortNamed members = sortNamed others := by
  apply eq_sortNamed (sortNamed_pairwise members)
  intro member
  rw [mem_sortNamed_iff, effective_iff_mem hNames,
    effective_iff_mem ((h.map Prod.fst).nodup_iff.mp hNames), h.mem_iff]

/-- Sorting looks at names alone. -/
theorem sortNamed_map (f : String × α → β) (members : List (String × α)) :
    sortNamed (members.map fun member => (member.1, f member)) =
      (sortNamed members).map fun member => (member.1, f member) := by
  symm
  apply eq_sortNamed
  · rw [List.pairwise_map]
    exact sortNamed_pairwise members
  · intro result
    rw [effective_map_iff, List.mem_map]
    simp only [mem_sortNamed_iff]

end Members

end StoreBench
