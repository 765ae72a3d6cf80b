import StoreBench.Proofs.Json.Reading

/-! Values that come back from their documents. A text spells tokens and a reader takes tokens, so
a value is recovered when the two agree; the parts of an array or a record do so one by one. -/
namespace StoreBench.Json

open Bytes (ofText decimal)

variable {α β ρ : Type}

/-- The text of the value, at whatever depth it is printed, is read as the value again. Its tokens
may stand in an array. -/
def RoundTrips (read : Reader α) (print : Nat → Bytes) (value : α) : Prop :=
  ∃ tokens, IsItem tokens ∧ (∀ depth, Spells (print depth) tokens) ∧ Reads read tokens value

namespace RoundTrips

theorem word {n : Nat} (h : n ≤ wordMax) : RoundTrips Reader.word (fun _ => decimal n) n :=
  ⟨[.number ⟨false, n, 0, true⟩], ⟨_, _, rfl, by simp⟩, fun _ => spells_decimal h, reads_word⟩

theorem text {value : String} (h : Plain value) :
    RoundTrips Reader.text (fun _ => Layout.quoted value) value :=
  ⟨[.text (ofText value) none], ⟨_, _, rfl, by simp⟩, fun _ => (closed_quoted h).spells,
    reads_text h⟩

/-- What is done with a value behind its reader leaves the tokens alone. -/
theorem map {read : Reader α} {print : Nat → Bytes} {value : α} (f : α → β)
    (h : RoundTrips read print value) :
    RoundTrips (do return f (← read)) print (f value) := by
  obtain ⟨tokens, hItem, hSpells, hReads⟩ := h
  refine ⟨tokens, hItem, hSpells, ?_⟩
  intro rest
  simp only [bind, StateT.bind, Except.bind, hReads rest]
  rfl

/-- The tokens of several values, one for each of them. -/
theorem exists_parts {read : Reader α} {print : Nat → α → Bytes} {values : List α}
    (h : ∀ value ∈ values, RoundTrips read (fun depth => print depth value) value) :
    ∃ parts : List (List Token), (∀ part ∈ parts, IsItem part) ∧
      (∀ depth, List.Forall₂ Spells (values.map (print depth)) parts) ∧
      List.Forall₂ (Reads read) parts values := by
  induction values with
  | nil => exact ⟨[], by simp, fun _ => .nil, .nil⟩
  | cons value more ih =>
      obtain ⟨⟨tokens, hItem, hSpells, hReads⟩, hMore⟩ := List.forall_mem_cons.mp h
      obtain ⟨parts, hItems, hLines, hValues⟩ := ih hMore
      exact ⟨tokens :: parts, List.forall_mem_cons.mpr ⟨hItem, hItems⟩,
        fun depth => .cons (hSpells depth) (hLines depth), .cons hReads hValues⟩

theorem array {read : Reader α} {print : Nat → α → Bytes} {values : List α}
    (h : ∀ value ∈ values, RoundTrips read (fun depth => print depth value) value) :
    RoundTrips (Reader.array read)
      (fun depth => Layout.array depth (values.map (print (depth + 1)))) values := by
  obtain ⟨parts, hItems, hLines, hValues⟩ := exists_parts h
  exact ⟨arrayTokens parts, ⟨_, _, rfl, by simp⟩,
    fun depth => spells_array depth (hLines (depth + 1)), reads_array hItems hValues⟩

end RoundTrips

/-- Texts of the fields of a record from which a draft is filled, field by field, to the end. -/
inductive Restores : List (Reader.Field ρ) → List (Nat → Bytes) → ρ → ρ → Prop where
  | nil (draft : ρ) : Restores [] [] draft draft
  | cons {field : Reader.Field ρ} {known : List (Reader.Field ρ)} {print : Nat → Bytes}
      {prints : List (Nat → Bytes)} {draft next last : ρ}
      (hField : RoundTrips (field.read draft) print next)
      (hMore : Restores known prints next last) :
      Restores (field :: known) (print :: prints) draft last

variable {known : List (Reader.Field ρ)} {prints : List (Nat → Bytes)} {draft last : ρ}

theorem Restores.exists_parts (h : Restores known prints draft last) :
    ∃ parts, Fills known parts draft last ∧
      List.Forall₂ (fun print tokens => ∀ depth, Spells (print depth) tokens) prints parts := by
  induction h with
  | nil draft => exact ⟨[], .nil draft, .nil⟩
  | cons hField _ ih =>
      obtain ⟨tokens, _, hSpells, hReads⟩ := hField
      obtain ⟨parts, hFills, hLines⟩ := ih
      exact ⟨tokens :: parts, .cons hReads hFills, .cons hSpells hLines⟩

/-- A record whose fields come back one by one comes back as a whole. -/
theorem RoundTrips.record (hNames : (known.map Reader.Field.name).Nodup)
    (hPlain : ∀ field ∈ known, Plain field.name) (h : Restores known prints draft last) :
    RoundTrips (Reader.record known draft)
      (fun depth => Layout.object depth
        ((known.map Reader.Field.name).zip (prints.map fun print => print (depth + 1)))) last := by
  obtain ⟨parts, hFills, hLines⟩ := h.exists_parts
  refine ⟨objectTokens ((known.map Reader.Field.name).zip parts), ⟨_, _, rfl, by simp⟩, ?_,
    reads_record hNames hPlain hFills⟩
  intro depth
  apply spells_object
  clear hNames hFills h
  induction hLines generalizing known with
  | nil => simp
  | cons hLine _ ih =>
      cases known with
      | nil => simp
      | cons field known =>
          obtain ⟨hName, hMore⟩ := List.forall_mem_cons.mp hPlain
          exact .cons ⟨rfl, hName, hLine (depth + 1)⟩ (ih hMore)

/-- The document of a value is read as the value. -/
theorem RoundTrips.document {read : Reader α} {print : Nat → Bytes} {value : α}
    (h : RoundTrips read print value) (depth : Nat) :
    Reader.document read (print depth) = .ok value := by
  obtain ⟨tokens, _, hSpells, hReads⟩ := h
  exact hReads.document (hSpells depth)

end StoreBench.Json
