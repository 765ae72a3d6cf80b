import StoreBench.Proofs.Json.Members

/-! Records by their members. A record that was read from an object is a list of members in any
order, of which those with other names than its fields were passed over; one that was read from an
array has a value for each of its fields. -/
namespace StoreBench.Json

open Reader (hasItem memberName)

variable {ρ : Type} {known : List (Reader.Field ρ)}

/-- The members of a record, read one after the other into a draft. A field is read once, and `seen`
are those that were. -/
inductive ReadsFields (known : List (Reader.Field ρ)) :
    List String → ρ → List (List Token) → ρ → Prop where
  | nil {seen : List String} (draft : ρ)
      (hAll : (known.all fun field => !field.required || seen.contains field.name) = true) :
      ReadsFields known seen draft [] draft
  | passed {raw : Bytes} {ending : Option DocumentFault} {name : String} {value : List Token}
      {seen : List String} {draft last : ρ} {parts : List (List Token)}
      (hName : Text.decode raw ending = .ok name)
      (hOther : known.find? (fun field => field.name == name) = none)
      (hValue : Reads Reader.skip value ()) (hMore : ReadsFields known seen draft parts last) :
      ReadsFields known seen draft ((.text raw ending :: .colon :: value) :: parts) last
  | field {raw : Bytes} {ending : Option DocumentFault} {name : String} {value : List Token}
      {seen : List String} {draft next last : ρ} {parts : List (List Token)}
      {field : Reader.Field ρ} (hName : Text.decode raw ending = .ok name)
      (hField : known.find? (fun field => field.name == name) = some field)
      (hUnseen : seen.contains name = false) (hValue : Reads (field.read draft) value next)
      (hMore : ReadsFields known (name :: seen) next parts last) :
      ReadsFields known seen draft ((.text raw ending :: .colon :: value) :: parts) last

section Objects

variable {seen : List String} {draft last : ρ} {parts : List (List Token)}

theorem fields_of_reads (h : ReadsFields known seen draft parts last) (first : Bool)
    (bound : List Token) (hBound : parts.length < bound.length) (rest : List Token) :
    Reader.fields known seen draft first bound (listed first parts ++ .closeBrace :: rest) =
      .ok (last, rest) := by
  induction h generalizing first bound with
  | nil draft hAll =>
      cases bound with
      | nil => simp at hBound
      | cons token bound =>
          simp only [Reader.fields, listed, List.nil_append, memberName, bind, StateT.bind,
            Except.bind, hAll, if_true]
          rfl
  | @passed _ _ name value seen draft last parts hName hOther hValue _ ih =>
      cases bound with
      | nil => simp at hBound
      | cons token bound =>
          have hNamed := memberName_text hName first
            (.colon :: (value ++ (listed false parts ++ .closeBrace :: rest)))
          have hMore := ih false bound (by simpa using hBound)
          rw [listed, Reader.fields]
          simp only [bind, StateT.bind, Except.bind, List.append_assoc, List.cons_append, hNamed,
            hOther, Reader.colon, hValue _, hMore]
  | @field _ _ name value seen draft next last parts field hName hField hUnseen hValue _ ih =>
      cases bound with
      | nil => simp at hBound
      | cons token bound =>
          have hNamed := memberName_text hName first
            (.colon :: (value ++ (listed false parts ++ .closeBrace :: rest)))
          have hMore := ih false bound (by simpa using hBound)
          rw [listed, Reader.fields]
          simp only [bind, StateT.bind, Except.bind, List.append_assoc, List.cons_append, hNamed,
            hField, hUnseen, Bool.false_eq_true, if_false, Reader.colon, hValue _, hMore]

theorem exists_fields (hLocal : ∀ field ∈ known, ∀ draft, Local (field.read draft)) {first : Bool}
    {bound tokens rest : List Token}
    (h : Reader.fields known seen draft first bound tokens = .ok (last, rest)) :
    ∃ parts, tokens = listed first parts ++ .closeBrace :: rest ∧
      ReadsFields known seen draft parts last := by
  induction bound generalizing seen draft first tokens with
  | nil => cases h
  | cons token bound ih =>
      obtain ⟨answer, more, hName, hMember⟩ := bind_eq_ok h
      rcases memberName_eq_ok hName with ⟨rfl, rfl⟩ | ⟨raw, ending, name, rfl, hText, rfl⟩
      · dsimp only at hMember
        split at hMember
        case isTrue hAll =>
          cases hMember
          exact ⟨[], rfl, .nil _ hAll⟩
        case isFalse => cases hMember
      · cases hField : known.find? fun field => field.name == name with
        | none =>
            simp only [hField] at hMember
            obtain ⟨_, tokens, hColon, hBody⟩ := bind_eq_ok hMember
            obtain ⟨_, others, hSkip, hMore⟩ := bind_eq_ok hBody
            obtain ⟨token, value, rfl, hValue⟩ := local_skip _ _ _ hSkip
            obtain ⟨parts, rfl, hParts⟩ := ih hMore
            obtain rfl := eq_of_colon hColon
            refine ⟨(.text raw ending :: .colon :: token :: value) :: parts, by simp [listed], ?_⟩
            exact .passed hText hField hValue hParts
        | some field =>
            simp only [hField] at hMember
            split at hMember
            case isTrue => cases hMember
            case isFalse hSeen =>
              obtain ⟨_, tokens, hColon, hBody⟩ := bind_eq_ok hMember
              obtain ⟨next, others, hRead, hMore⟩ := bind_eq_ok hBody
              obtain ⟨token, value, rfl, hValue⟩ :=
                hLocal field (List.mem_of_find?_eq_some hField) draft _ _ _ hRead
              obtain ⟨parts, rfl, hParts⟩ := ih hMore
              obtain rfl := eq_of_colon hColon
              refine ⟨(.text raw ending :: .colon :: token :: value) :: parts, by simp [listed], ?_⟩
              exact .field hText hField (by simpa using hSeen) hValue hParts

theorem ReadsFields.ne_nil (h : ReadsFields known seen draft parts last) :
    ∀ part ∈ parts, part ≠ [] := by
  induction h with
  | nil => simp
  | passed _ _ _ _ ih => exact List.forall_mem_cons.mpr ⟨List.cons_ne_nil _ _, ih⟩
  | field _ _ _ _ _ ih => exact List.forall_mem_cons.mpr ⟨List.cons_ne_nil _ _, ih⟩

/-- A record is read from an object with such members. -/
theorem reads_object (h : ReadsFields known [] draft parts last) :
    Reads (Reader.record known draft) (braced parts) last := by
  intro rest
  have hLength := length_le_listed h.ne_nil true
  rw [braced, List.append_assoc, List.singleton_append, List.cons_append, Reader.record,
    fields_of_reads h true _ (by simp; omega)]

end Objects

section Arrays

variable {draft last : ρ} {parts : List (List Token)} {first : Bool}

/-- An item of an array begins behind its comma, and the array does not end there. -/
theorem hasItem_eq_ok {tokens rest : List Token} (h : hasItem first tokens = .ok (true, rest)) :
    tokens = (if first then [] else [.comma]) ++ rest ∧
      ∃ token more, rest = token :: more ∧ token ≠ .closeBracket := by
  rcases tokens with _ | ⟨token, more⟩
  · cases h
  cases first with
  | true =>
      have hItem : token ≠ .closeBracket ∧ rest = token :: more := by
        cases token <;> cases h <;> exact ⟨by simp, rfl⟩
      obtain ⟨hToken, rfl⟩ := hItem
      exact ⟨rfl, token, more, rfl, hToken⟩
  | false =>
      cases token with
      | comma =>
          rcases more with _ | ⟨next, more⟩
          · cases h
          have hItem : next ≠ .closeBracket ∧ rest = next :: more := by
            cases next <;> cases h <;> exact ⟨by simp, rfl⟩
          obtain ⟨hNext, rfl⟩ := hItem
          exact ⟨rfl, next, more, rfl, hNext⟩
      | _ => cases h

theorem positional_listed (hItems : ∀ part ∈ parts, IsItem part) (h : Fills known parts draft last)
    (first : Bool) (rest : List Token) :
    Reader.positional draft first known (listed first parts ++ .closeBracket :: rest) =
      .ok (last, rest) := by
  induction h generalizing first with
  | nil draft => rfl
  | @cons field known part parts draft next last hRead _ ih =>
      obtain ⟨hFirst, hRest⟩ := List.forall_mem_cons.mp hItems
      have hHas := hasItem_part hFirst first (listed false parts ++ .closeBracket :: rest)
      rw [listed, Reader.positional, List.append_assoc]
      simp only [bind, StateT.bind, Except.bind, hHas, hRead _, ih hRest false, if_true]

theorem exists_fills (hLocal : ∀ field ∈ known, ∀ draft, Local (field.read draft))
    {tokens rest : List Token}
    (h : Reader.positional draft first known tokens = .ok (last, rest)) :
    ∃ parts, tokens = listed first parts ++ .closeBracket :: rest ∧
      (∀ part ∈ parts, IsItem part) ∧ Fills known parts draft last := by
  induction known generalizing draft first tokens with
  | nil =>
      rcases tokens with _ | ⟨token, more⟩
      · cases h
      cases token with
      | closeBracket =>
          cases h
          exact ⟨[], rfl, by simp, .nil _⟩
      | _ => cases h
  | cons field known ih =>
      obtain ⟨hField, hKnown⟩ := List.forall_mem_cons.mp hLocal
      obtain ⟨has, more, hHas, hItem⟩ := bind_eq_ok h
      cases has with
      | false => cases hItem
      | true =>
          obtain ⟨next, others, hRead, hMore⟩ := bind_eq_ok hItem
          obtain ⟨rfl, token, tail, rfl, hToken⟩ := hasItem_eq_ok hHas
          obtain ⟨_, part, hCut, hReads⟩ := hField draft _ _ _ hRead
          obtain ⟨parts, rfl, hItems, hFills⟩ := ih hKnown hMore
          cases hCut
          refine ⟨(token :: part) :: parts, by simp [listed], ?_, .cons hReads hFills⟩
          exact List.forall_mem_cons.mpr ⟨⟨token, part, rfl, hToken⟩, hItems⟩

/-- A record is read from an array with a value for each of its fields. -/
theorem reads_positional (hItems : ∀ part ∈ parts, IsItem part) (h : Fills known parts draft last) :
    Reads (Reader.record known draft) (arrayTokens parts) last := by
  intro rest
  rw [arrayTokens, List.append_assoc, List.singleton_append, List.cons_append, Reader.record,
    positional_listed hItems h]

end Arrays

variable {draft last : ρ}

/-- The two forms that a record can have been read from. -/
theorem record_eq_ok (hLocal : ∀ field ∈ known, ∀ draft, Local (field.read draft))
    {tokens rest : List Token} (h : Reader.record known draft tokens = .ok (last, rest)) :
    (∃ parts, tokens = braced parts ++ rest ∧ ReadsFields known [] draft parts last) ∨
      ∃ parts, tokens = arrayTokens parts ++ rest ∧ (∀ part ∈ parts, IsItem part) ∧
        Fills known parts draft last := by
  rcases tokens with _ | ⟨token, more⟩
  · cases h
  cases token with
  | openBrace =>
      obtain ⟨parts, rfl, hParts⟩ := exists_fields hLocal h
      exact Or.inl ⟨parts, by simp [braced], hParts⟩
  | openBracket =>
      obtain ⟨parts, rfl, hItems, hFills⟩ := exists_fills hLocal h
      exact Or.inr ⟨parts, by simp [arrayTokens], hItems, hFills⟩
  | _ => cases h

theorem local_record (hLocal : ∀ field ∈ known, ∀ draft, Local (field.read draft)) (draft : ρ) :
    Local (Reader.record known draft) := by
  intro tokens last rest h
  rcases record_eq_ok hLocal h with ⟨parts, rfl, hParts⟩ | ⟨parts, rfl, hItems, hFills⟩
  · refine ⟨.openBrace, listed true parts ++ [.closeBrace], rfl, ?_⟩
    exact reads_object hParts
  · refine ⟨.openBracket, listed true parts ++ [.closeBracket], rfl, ?_⟩
    exact reads_positional hItems hFills

end StoreBench.Json
