import Mathlib.Data.List.Nodup
import StoreBench.Json.Reader
import StoreBench.Proofs.Json.Spelling

/-! Reading what was printed. A reader that takes a value from its tokens goes on with whatever
follows them, so readers of parts make up readers of arrays and records. -/
namespace StoreBench

/-- A text comes back from its bytes. -/
theorem Bytes.toText?_ofText (text : String) : toText? (ofText text) = some text := by
  have hBytes : (⟨(ofText text).toArray⟩ : ByteArray) = text.toByteArray := by
    rw [← String.utf8Encode_toList]
    exact ByteArray.ext List.data_toByteArray.symm
  rw [toText?, hBytes, String.fromUTF8?, dif_pos text.isValidUTF8]
  rfl

namespace Json

open Bytes (ofText)
open Reader (hasItem memberName)

variable {α ρ : Type}

/-- The reader takes this value from these tokens, whatever follows them. -/
def Reads (item : Reader α) (tokens : List Token) (value : α) : Prop :=
  ∀ rest, item (tokens ++ rest) = .ok (value, rest)

theorem reads_word {n : Nat} : Reads Reader.word [.number ⟨false, n, 0, true⟩] n := by
  intro rest
  rw [List.singleton_append, Reader.word]
  simp [Numeral.word?]

/-- Nothing is replaced in a plain text. -/
theorem unescape_plain {raw : Bytes} (h : ∀ b ∈ raw, b ≠ 34 ∧ b ≠ 92 ∧ 32 ≤ b) (done : Bytes) :
    Text.unescape none none done raw = .ok (done.reverse ++ raw) := by
  induction raw generalizing done with
  | nil => simp [Text.unescape]
  | cons b more ih =>
      obtain ⟨⟨_, hEscape, _⟩, hMore⟩ := List.forall_mem_cons.mp h
      have hPassed : Text.unescape none none done (b :: more) =
          Text.unescape none none (b :: done) more := by
        rw [Text.unescape.eq_def]
        split <;> simp_all
      rw [hPassed, ih hMore, List.reverse_cons, List.append_assoc]
      rfl

theorem decode_plain {text : String} (h : Plain text) :
    Text.decode (ofText text) none = .ok text := by
  rw [Text.decode, unescape_plain h]
  simp [bind, Except.bind, Bytes.toText?_ofText]

theorem reads_text {text : String} (h : Plain text) :
    Reads Reader.text [.text (ofText text) none] text := by
  intro rest
  rw [List.singleton_append, Reader.text, decode_plain h]

/-- There is a token at least for each of the parts. -/
theorem length_le_listed {parts : List (List Token)} (hParts : ∀ part ∈ parts, part ≠ [])
    (first : Bool) : parts.length ≤ (listed first parts).length := by
  induction parts generalizing first with
  | nil => exact Nat.le_refl 0
  | cons part more ih =>
      obtain ⟨hPart, hMore⟩ := List.forall_mem_cons.mp hParts
      have hLength := ih hMore false
      have hPositive := List.length_pos_iff.mpr hPart
      simp only [listed, List.length_append, List.length_cons]
      omega

section Arrays

variable {item : Reader α} {parts : List (List Token)} {values : List α}

/-- Whether the tokens can be an item: the array does not end there. -/
def IsItem (part : List Token) : Prop := ∃ token more, part = token :: more ∧ token ≠ .closeBracket

theorem hasItem_part {part : List Token} (h : IsItem part) (first : Bool) (rest : List Token) :
    hasItem first ((if first then [] else [.comma]) ++ part ++ rest) =
      .ok (true, part ++ rest) := by
  obtain ⟨token, more, rfl, hToken⟩ := h
  cases first with
  | true => cases token <;> simp_all [hasItem]
  | false => cases token <;> simp_all [hasItem]

theorem items_listed (hItems : ∀ part ∈ parts, IsItem part)
    (hReads : List.Forall₂ (Reads item) parts values) (first : Bool) (done : List α)
    (bound : List Token) (hBound : parts.length < bound.length) (rest : List Token) :
    Reader.items item first done bound (listed first parts ++ .closeBracket :: rest) =
      .ok (done.reverse ++ values, rest) := by
  induction hReads generalizing first done bound with
  | nil =>
      cases bound with
      | nil => simp at hBound
      | cons token bound =>
          rw [List.append_nil]
          cases first with
          | true => rfl
          | false => rfl
  | @cons part value parts values hPart _ ih =>
      obtain ⟨hFirst, hRest⟩ := List.forall_mem_cons.mp hItems
      cases bound with
      | nil => simp at hBound
      | cons token bound =>
          have hHas := hasItem_part hFirst first (listed false parts ++ .closeBracket :: rest)
          have hRead := hPart (listed false parts ++ .closeBracket :: rest)
          have hMore := ih hRest false (value :: done) bound (by simpa using hBound)
          rw [listed, Reader.items, List.append_assoc]
          simp only [bind, StateT.bind, hHas, Except.bind, hRead, hMore, if_true]
          simp

/-- An array is read item by item. -/
theorem reads_array (hItems : ∀ part ∈ parts, IsItem part)
    (hReads : List.Forall₂ (Reads item) parts values) :
    Reads (Reader.array item) (arrayTokens parts) values := by
  intro rest
  have hParts : ∀ part ∈ parts, part ≠ [] := by
    intro part hPart
    obtain ⟨token, more, rfl, _⟩ := hItems part hPart
    exact List.cons_ne_nil token more
  have hLength := length_le_listed hParts true
  rw [arrayTokens, List.append_assoc, List.singleton_append, List.cons_append, Reader.array,
    items_listed hItems hReads true [] _ (by simp; omega)]
  rfl

end Arrays

section Records

/-- The fields of a record take a draft, value by value, to the finished record. -/
inductive Fills : List (Reader.Field ρ) → List (List Token) → ρ → ρ → Prop where
  | nil (draft : ρ) : Fills [] [] draft draft
  | cons {field : Reader.Field ρ} {known : List (Reader.Field ρ)} {part : List Token}
      {parts : List (List Token)} {draft next last : ρ} (hRead : Reads (field.read draft) part next)
      (hMore : Fills known parts next last) : Fills (field :: known) (part :: parts) draft last

theorem memberName_part {name : String} (hName : Plain name) (value : List Token) (first : Bool)
    (rest : List Token) :
    memberName first ((if first then [] else [.comma]) ++ memberTokens name value ++ rest) =
      .ok (some name, .colon :: value ++ rest) := by
  have hAfter : memberName.afterComma (memberTokens name value ++ rest) =
      .ok (some name, .colon :: value ++ rest) := by
    have hText : Reader.text (.text (ofText name) none :: (.colon :: value ++ rest)) = _ :=
      reads_text hName (.colon :: value ++ rest)
    rw [memberTokens, List.cons_append, memberName.afterComma]
    simp only [Functor.map, StateT.map, bind, Except.bind, hText]
    rfl
  cases first with
  | true => exact hAfter
  | false => exact hAfter

variable {known earlier todo : List (Reader.Field ρ)} {parts : List (List Token)} {draft last : ρ}

/-- A field that was not read before is found by its name. -/
theorem find_field {field : Reader.Field ρ} (hNames : (known.map Reader.Field.name).Nodup)
    (hKnown : known = earlier ++ field :: todo) :
    known.find? (fun other => other.name == field.name) = some field ∧
      (earlier.map Reader.Field.name).reverse.contains field.name = false := by
  subst hKnown
  rw [List.map_append, List.map_cons, List.nodup_append] at hNames
  have hEarlier : ∀ other ∈ earlier, other.name ≠ field.name := fun other hOther =>
    hNames.2.2 other.name (List.mem_map_of_mem hOther) field.name List.mem_cons_self
  refine ⟨List.find?_eq_some_iff_append.mpr ⟨by simp, earlier, todo, rfl, ?_⟩, ?_⟩
  · simpa using hEarlier
  · simpa using hEarlier

/-- A field that was not read before is read and noted. -/
theorem fields_member {field : Reader.Field ρ} {seen : List String} {next : ρ} {first : Bool}
    {token : Token} {tokens part more bound : List Token}
    (hName : memberName first tokens = .ok (some field.name, .colon :: part ++ more))
    (hFind : known.find? (fun other => other.name == field.name) = some field)
    (hUnseen : seen.contains field.name = false) (hRead : Reads (field.read draft) part next) :
    Reader.fields known seen draft first (token :: bound) tokens =
      Reader.fields known (field.name :: seen) next false bound more := by
  rw [Reader.fields]
  simp only [bind, StateT.bind, Except.bind, hName, hFind, hUnseen, Bool.false_eq_true, if_false,
    List.cons_append, Reader.colon]
  rw [hRead more]

/-- The members of a record, of which the `earlier` fields have been read already. -/
theorem fields_listed (hNames : (known.map Reader.Field.name).Nodup)
    (hPlain : ∀ field ∈ known, Plain field.name) (hKnown : known = earlier ++ todo)
    (hFills : Fills todo parts draft last) (first : Bool) (bound : List Token)
    (hBound : todo.length < bound.length) (rest : List Token) :
    Reader.fields known (earlier.map Reader.Field.name).reverse draft first bound
      (listed first (((todo.map Reader.Field.name).zip parts).map fun (name, value) =>
        memberTokens name value) ++ .closeBrace :: rest) = .ok (last, rest) := by
  induction hFills generalizing earlier first bound with
  | nil draft =>
      cases bound with
      | nil => simp at hBound
      | cons token bound =>
          have hSeen : (known.all fun field => !field.required ||
              (earlier.map Reader.Field.name).reverse.contains field.name) = true := by
            simp only [hKnown, List.append_nil, List.all_eq_true]
            intro field hField
            simp only [Bool.or_eq_true, List.contains_eq_mem, List.mem_reverse, decide_eq_true_eq]
            exact Or.inr (List.mem_map_of_mem hField)
          simp only [Reader.fields, List.map_nil, List.zip_nil_left, listed, List.nil_append,
            memberName, bind, StateT.bind, Except.bind, hSeen, if_true]
          rfl
  | @cons field todo part parts draft next last hRead _ ih =>
      cases bound with
      | nil => simp at hBound
      | cons token bound =>
          obtain ⟨hFind, hUnseen⟩ := find_field hNames hKnown
          have hName := hPlain field (by simp [hKnown])
          have hRest : known = (earlier ++ [field]) ++ todo := by simp [hKnown]
          have hMore := ih hRest false bound (by simpa using hBound)
          have hSeen : ((earlier ++ [field]).map Reader.Field.name).reverse =
              field.name :: (earlier.map Reader.Field.name).reverse := by simp
          rw [List.map_cons, List.zip_cons_cons, List.map_cons, listed, List.append_assoc,
            fields_member (memberName_part hName part first _) hFind hUnseen hRead, ← hSeen]
          exact hMore

theorem Fills.length_eq (h : Fills todo parts draft last) : todo.length = parts.length := by
  induction h with
  | nil => rfl
  | cons _ _ ih => simp [ih]

/-- A record is read field by field from an object that names all of them in order. -/
theorem reads_record (hNames : (known.map Reader.Field.name).Nodup)
    (hPlain : ∀ field ∈ known, Plain field.name) (hFills : Fills known parts draft last) :
    Reads (Reader.record known draft)
      (objectTokens ((known.map Reader.Field.name).zip parts)) last := by
  intro rest
  let members := ((known.map Reader.Field.name).zip parts).map fun (name, value) =>
    memberTokens name value
  have hParts : ∀ part ∈ members, part ≠ [] := by
    intro part hPart
    obtain ⟨_, _, rfl⟩ := List.mem_map.mp hPart
    exact List.cons_ne_nil _ _
  have hCount : members.length = known.length := by
    simp [members, hFills.length_eq]
  have hLength := length_le_listed hParts true
  have hTokens : objectTokens ((known.map Reader.Field.name).zip parts) ++ rest =
      .openBrace :: (listed true members ++ .closeBrace :: rest) := by
    simp [objectTokens, members]
  have hAll : known = [] ++ known := rfl
  rw [hTokens, Reader.record]
  exact fields_listed hNames hPlain hAll hFills true _ (by simp; omega) rest

end Records

/-- A document that holds one value and nothing else is read as that value. -/
theorem Reads.document {read : Reader α} {bytes : Bytes} {tokens : List Token} {value : α}
    (h : Reads read tokens value) (hSpells : Spells bytes tokens) :
    Reader.document read bytes = .ok value := by
  have hRead := h []
  rw [List.append_nil, ← hSpells.lex] at hRead
  rw [Reader.document, hRead]

end Json

end StoreBench
