import StoreBench.Proofs.Json.Reading
import StoreBench.Proofs.Outcome

/-! What a reader has taken. A value that was read stands in front of the tokens left over, and it
would have been read whatever these are. So an object that was read is a list of members, each of
them with a value of its own, and its members can be put together in another order. -/
namespace StoreBench.Json

open Reader (memberName)

variable {α β ρ : Type}

/-- What the reader gives it has taken from the front, one token at least, and without a look at
what follows. -/
def Local (item : Reader α) : Prop :=
  ∀ tokens value rest, item tokens = .ok (value, rest) →
    ∃ token part, tokens = token :: part ++ rest ∧ Reads item (token :: part) value

theorem bind_eq_ok {first : Reader α} {next : α → Reader β} {tokens rest : List Token} {result : β}
    (h : (first >>= next) tokens = .ok (result, rest)) :
    ∃ value more, first tokens = .ok (value, more) ∧ next value more = .ok (result, rest) := by
  obtain ⟨⟨value, more⟩, hFirst, hNext⟩ := exists_of_bind_eq_ok h
  exact ⟨value, more, hFirst, hNext⟩

theorem exists_related {related : α → β → Prop} {items : List α} {others : List β}
    (h : List.Forall₂ related items others) {item : α} (hItem : item ∈ items) :
    ∃ other ∈ others, related item other := by
  induction h with
  | nil => cases hItem
  | @cons first second items others hFirst _ ih =>
      rcases List.mem_cons.mp hItem with rfl | hItem
      · exact ⟨second, List.mem_cons_self, hFirst⟩
      · obtain ⟨other, hOther, hRelated⟩ := ih hItem
        exact ⟨other, List.mem_cons_of_mem _ hOther, hRelated⟩

section Values

theorem local_double : Local Reader.double := by
  intro tokens value rest h
  rcases tokens with _ | ⟨token, more⟩
  · cases h
  cases token with
  | number n =>
      rw [Reader.double] at h
      split at h
      · cases h
      case isFalse hRange =>
        cases h
        exact ⟨.number n, [], rfl, fun rest => if_neg hRange⟩
  | _ => cases h

theorem local_word : Local Reader.word := by
  intro tokens value rest h
  rcases tokens with _ | ⟨token, more⟩
  · cases h
  cases token with
  | number n =>
      rw [Reader.word] at h
      split at h
      case h_1 hWord =>
        cases h
        refine ⟨.number n, [], rfl, fun rest => ?_⟩
        rw [List.singleton_append, Reader.word, hWord]
      · cases h
  | _ => cases h

variable {item : Reader α}

/-- One run is enough to know what a local reader makes of the tokens. -/
theorem Local.reads (h : Local item) {tokens : List Token} {value : α}
    (hRead : item tokens = .ok (value, [])) : Reads item tokens value := by
  obtain ⟨token, part, rfl, hReads⟩ := h tokens value [] hRead
  rw [List.append_nil]
  exact hReads

theorem Reads.unique {tokens : List Token} {value other : α} (h : Reads item tokens value)
    (hOther : Reads item tokens other) : value = other := by
  have hSame := (h []).symm.trans (hOther [])
  cases hSame
  rfl

theorem Reads.map {tokens : List Token} {value : α} (h : Reads item tokens value) (f : α → β) :
    Reads (do return f (← item)) tokens (f value) := by
  intro rest
  simp only [bind, StateT.bind, h rest]
  rfl

theorem Local.map (h : Local item) (f : α → β) : Local (do return f (← item)) := by
  intro tokens value rest hRead
  obtain ⟨found, more, hFound, hValue⟩ := bind_eq_ok hRead
  cases hValue
  obtain ⟨token, part, rfl, hReads⟩ := h tokens found rest hFound
  exact ⟨token, part, rfl, hReads.map f⟩

theorem Reads.optional {token : Token} {part : List Token} {value : α}
    (h : Reads item (token :: part) value) (hToken : token ≠ .null) :
    Reads (Reader.optional item) (token :: part) (some value) := by
  intro rest
  cases token with
  | null => exact absurd rfl hToken
  | _ => exact h.map some rest

theorem Local.optional (h : Local item) : Local (Reader.optional item) := by
  intro tokens value rest hRead
  unfold Reader.optional at hRead
  split at hRead
  · cases hRead
    exact ⟨.null, [], rfl, fun rest => rfl⟩
  case h_2 hOther =>
    obtain ⟨token, part, rfl, hReads⟩ := h.map some tokens value rest hRead
    refine ⟨token, part, rfl, fun others => ?_⟩
    cases token with
    | null => exact (hOther (part ++ rest) rfl).elim
    | _ => exact hReads others

/-- The automaton stops at the same token whatever follows it. -/
theorem skip_run_local {place : Skip.Place} {frames : List Skip.Frame} {tokens rest : List Token}
    (h : Skip.run place frames tokens = .ok rest) :
    ∃ token part, tokens = token :: part ++ rest ∧
      ∀ others, Skip.run place frames (token :: part ++ others) = .ok others := by
  induction tokens generalizing place frames with
  | nil => cases h
  | cons token more ih =>
      rw [Skip.run] at h
      split at h
      · cases h
      case h_2 hStep =>
        cases h
        refine ⟨token, [], rfl, fun others => ?_⟩
        rw [List.singleton_append, Skip.run, hStep]
      case h_3 next inside hStep =>
        obtain ⟨second, part, rfl, hRun⟩ := ih h
        refine ⟨token, second :: part, rfl, fun others => ?_⟩
        rw [List.cons_append, Skip.run, hStep]
        exact hRun others

theorem local_skip : Local Reader.skip := by
  intro tokens value rest h
  unfold Reader.skip at h
  split at h
  case h_2 => cases h
  case h_1 hRun =>
    cases h
    obtain ⟨token, part, rfl, hOthers⟩ := skip_run_local hRun
    refine ⟨token, part, rfl, fun others => ?_⟩
    rw [Reader.skip, hOthers]

end Values

section Dictionaries

/-- The tokens of an object, given those of its members. -/
def braced (members : List (List Token)) : List Token :=
  .openBrace :: listed true members ++ [.closeBrace]

/-- The tokens of a member: a name, and a value that the reader takes. -/
inductive ReadsMember (item : Reader α) : List Token → String × α → Prop where
  | intro {raw : Bytes} {ending : Option DocumentFault} {value : List Token} {name : String}
      {result : α} (hName : Text.decode raw ending = .ok name) (hValue : Reads item value result) :
      ReadsMember item (.text raw ending :: .colon :: value) (name, result)

variable {raw : Bytes} {ending : Option DocumentFault} {name : String} {first : Bool}

theorem memberName_text (hName : Text.decode raw ending = .ok name) (first : Bool)
    (rest : List Token) :
    memberName first ((if first then [] else [.comma]) ++ .text raw ending :: rest) =
      .ok (some name, rest) := by
  have hAfter : memberName.afterComma (.text raw ending :: rest) = .ok (some name, rest) := by
    rw [memberName.afterComma]
    simp only [Functor.map, StateT.map, bind, Except.bind, Reader.text, hName]
    rfl
  cases first with
  | true => exact hAfter
  | false => exact hAfter

/-- An object goes on with the name of a member, or it ends. -/
theorem memberName_eq_ok {tokens rest : List Token} {answer : Option String}
    (h : memberName first tokens = .ok (answer, rest)) :
    (answer = none ∧ tokens = .closeBrace :: rest) ∨
      ∃ raw ending name, answer = some name ∧ Text.decode raw ending = .ok name ∧
        tokens = (if first then [] else [.comma]) ++ .text raw ending :: rest := by
  have hAfter {tokens : List Token} (h : memberName.afterComma tokens = .ok (answer, rest)) :
      ∃ raw ending name, answer = some name ∧ Text.decode raw ending = .ok name ∧
        tokens = .text raw ending :: rest := by
    rcases tokens with _ | ⟨token, more⟩
    · cases h
    cases token with
    | text raw ending =>
        rw [memberName.afterComma] at h
        cases hText : Text.decode raw ending with
        | error fault => simp [Functor.map, StateT.map, bind, Except.bind, Reader.text, hText] at h
        | ok name =>
            simp only [Functor.map, StateT.map, bind, Except.bind, Reader.text, hText] at h
            cases h
            exact ⟨raw, ending, name, rfl, hText, rfl⟩
    | _ => cases h
  rcases tokens with _ | ⟨token, more⟩
  · cases h
  cases first with
  | true =>
      cases token with
      | closeBrace =>
          cases h
          exact Or.inl ⟨rfl, rfl⟩
      | comma => cases h
      | _ => exact Or.inr (hAfter h)
  | false =>
      cases token with
      | closeBrace =>
          cases h
          exact Or.inl ⟨rfl, rfl⟩
      | comma =>
          obtain ⟨raw, ending, name, hAnswer, hName, rfl⟩ := hAfter h
          exact Or.inr ⟨raw, ending, name, hAnswer, hName, rfl⟩
      | _ => cases h

theorem eq_of_colon {tokens rest : List Token} (h : Reader.colon tokens = .ok ((), rest)) :
    tokens = .colon :: rest := by
  rcases tokens with _ | ⟨token, more⟩
  · cases h
  cases token with
  | colon =>
      cases h
      rfl
  | _ => cases h

variable {item : Reader α} {parts : List (List Token)} {values : List (String × α)}

theorem ReadsMember.ne_nil {part : List Token} {value : String × α}
    (h : ReadsMember item part value) : part ≠ [] := by
  cases h
  exact List.cons_ne_nil _ _

theorem members_listed (h : List.Forall₂ (ReadsMember item) parts values) (first : Bool)
    (done : List (String × α)) (bound : List Token) (hBound : parts.length < bound.length)
    (rest : List Token) :
    Reader.members item first done bound (listed first parts ++ .closeBrace :: rest) =
      .ok (done.reverse ++ values, rest) := by
  induction h generalizing first done bound with
  | nil =>
      cases bound with
      | nil => simp at hBound
      | cons token bound =>
          rw [List.append_nil]
          rfl
  | @cons part value parts values hPart _ ih =>
      obtain @⟨raw, ending, tokens, name, result, hName, hValue⟩ := hPart
      cases bound with
      | nil => simp at hBound
      | cons token bound =>
          have hNamed := memberName_text hName first
            (.colon :: (tokens ++ (listed false parts ++ .closeBrace :: rest)))
          have hMore := ih false ((name, result) :: done) bound (by simpa using hBound)
          rw [listed, Reader.members]
          simp only [bind, StateT.bind, Except.bind, List.append_assoc, List.cons_append, hNamed,
            Reader.colon, hValue _, hMore]
          simp

theorem reads_dictionary (h : List.Forall₂ (ReadsMember item) parts values) :
    Reads (Reader.dictionary item) (braced parts) values := by
  intro rest
  -- The reader counts down over the tokens, of which there are more than members.
  have hParts : ∀ part ∈ parts, part ≠ [] := by
    intro part hPart
    obtain ⟨value, _, hMember⟩ := exists_related h hPart
    exact hMember.ne_nil
  have hLength := length_le_listed hParts true
  rw [braced, List.append_assoc, List.singleton_append, List.cons_append, Reader.dictionary,
    members_listed h true [] _ (by simp; omega)]
  rfl

theorem exists_listed (hLocal : Local item) {done members : List (String × α)}
    {bound tokens rest : List Token}
    (h : Reader.members item first done bound tokens = .ok (members, rest)) :
    ∃ parts values, tokens = listed first parts ++ .closeBrace :: rest ∧
      List.Forall₂ (ReadsMember item) parts values ∧ members = done.reverse ++ values := by
  -- A reader that came to the end has not run out of the bound, whatever that was.
  induction bound generalizing first done tokens with
  | nil => cases h
  | cons token bound ih =>
      obtain ⟨answer, more, hName, hMember⟩ := bind_eq_ok h
      rcases memberName_eq_ok hName with ⟨rfl, rfl⟩ | ⟨raw, ending, name, rfl, hText, rfl⟩
      · cases hMember
        exact ⟨[], [], rfl, .nil, (List.append_nil _).symm⟩
      · obtain ⟨_, tokens, hColon, hBody⟩ := bind_eq_ok hMember
        obtain ⟨value, others, hValue, hMore⟩ := bind_eq_ok hBody
        obtain ⟨token, part, rfl, hReads⟩ := hLocal _ _ _ hValue
        obtain ⟨parts, values, rfl, hParts, rfl⟩ := ih hMore
        obtain rfl := eq_of_colon hColon
        refine ⟨(.text raw ending :: .colon :: token :: part) :: parts, (name, value) :: values, ?_,
          .cons (.intro hText hReads) hParts, by simp⟩
        simp [listed]

theorem exists_braced (hLocal : Local item) {tokens rest : List Token}
    (h : Reader.dictionary item tokens = .ok (values, rest)) :
    ∃ parts, tokens = braced parts ++ rest ∧ List.Forall₂ (ReadsMember item) parts values := by
  rcases tokens with _ | ⟨token, more⟩
  · cases h
  cases token with
  | openBrace =>
      obtain ⟨parts, found, rfl, hParts, rfl⟩ := exists_listed hLocal h
      exact ⟨parts, by simp [braced], hParts⟩
  | _ => cases h

theorem Local.dictionary (h : Local item) : Local (Reader.dictionary item) := by
  intro tokens values rest hRead
  obtain ⟨parts, rfl, hParts⟩ := exists_braced h hRead
  refine ⟨.openBrace, listed true parts ++ [.closeBrace], rfl, ?_⟩
  exact reads_dictionary hParts

/-- A document is read as a dictionary if it is an object whose members are read. -/
theorem document_dictionary_iff (h : Local item) {bytes : Bytes} :
    Reader.document (Reader.dictionary item) bytes = .ok values ↔
      ∃ parts, Token.lex bytes = braced parts ∧ List.Forall₂ (ReadsMember item) parts values := by
  rw [Reader.document]
  constructor
  · intro hDocument
    split at hDocument
    case h_1 => cases hDocument
    case h_2 hRead =>
      cases hDocument
      obtain ⟨parts, hTokens, hParts⟩ := exists_braced h hRead
      exact ⟨parts, by rw [hTokens, List.append_nil], hParts⟩
    case h_3 => cases hDocument
  · rintro ⟨parts, hTokens, hParts⟩
    have hRead := reads_dictionary hParts []
    rw [List.append_nil] at hRead
    rw [hTokens, hRead]

end Dictionaries

end StoreBench.Json
