import Mathlib.Data.List.Forall2
import Mathlib.Tactic.IntervalCases
import StoreBench.Json.Layout
import StoreBench.Json.Token

/-! Documents token by token. Printing a part and lexing it again gives its tokens, whatever stands
before and behind it. A number alone has to be careful about what follows it, for a digit, a point
or the letter of an exponent would go on with it. -/
namespace StoreBench

namespace Bytes

theorem isDigit_digit {n : Nat} (h : n < 10) : isDigit (digit n) = true := by
  interval_cases n <;> rfl

theorem toNat_digit {n : Nat} (h : n < 10) : (digit n).toNat - 48 = n := by
  interval_cases n <;> rfl

theorem exists_digit {b : UInt8} (h : isDigit b = true) : ∃ n < 10, b = digit n := by
  simp only [isDigit, Bool.and_eq_true, decide_eq_true_eq, UInt8.le_iff_toNat_le] at h
  have hLow : 48 ≤ b.toNat := h.1
  have hHigh : b.toNat ≤ 57 := h.2
  refine ⟨b.toNat - 48, by omega, ?_⟩
  rw [digit, Nat.add_sub_of_le hLow]
  exact UInt8.toNat.inj (by simp [Nat.toUInt8])

/-- Reading the digits of a number gives the number. -/
theorem extend_decimal (n : Nat) : extend 0 (decimal n) = n := by
  induction n using decimal.induct with
  | case1 n h =>
      rw [decimal, if_pos h]
      simp [extend, toNat_digit h]
  | case2 n h ih =>
      have hLast : n % 10 < 10 := Nat.mod_lt n (by omega)
      rw [decimal, if_neg h]
      simp only [extend, List.foldl_append, List.foldl_cons, List.foldl_nil] at ih ⊢
      rw [ih, toNat_digit hLast]
      omega

theorem le_extend (value : Nat) (digits : Bytes) : value ≤ extend value digits := by
  induction digits generalizing value with
  | nil => exact Nat.le_refl _
  | cons b rest ih =>
      have hLonger := ih (10 * value + (b.toNat - 48))
      simp only [extend, List.foldl_cons] at hLonger ⊢
      omega

theorem isDigit_of_mem_decimal {n : Nat} {b : UInt8} (h : b ∈ decimal n) : isDigit b = true := by
  induction n using decimal.induct with
  | case1 n hLess =>
      rw [decimal, if_pos hLess] at h
      simp only [List.mem_singleton] at h
      rw [h, isDigit_digit hLess]
  | case2 n hLess ih =>
      rw [decimal, if_neg hLess, List.mem_append, List.mem_singleton] at h
      rcases h with hEarlier | rfl
      · exact ih hEarlier
      · exact isDigit_digit (Nat.mod_lt n (by omega))

/-- Only zero itself starts with zero. -/
theorem decimal_cons {n : Nat} :
    ∃ first rest, decimal n = first :: rest ∧ (n = 0 ∧ rest = [] ∨ first ≠ 48) := by
  induction n using decimal.induct with
  | case1 n h =>
      refine ⟨digit n, [], by rw [decimal, if_pos h], ?_⟩
      interval_cases n <;> simp [digit]
  | case2 n h ih =>
      obtain ⟨first, rest, hDigits, hFirst⟩ := ih
      refine ⟨first, rest ++ [digit (n % 10)], by rw [decimal, if_neg h, hDigits]; rfl, ?_⟩
      rcases hFirst with ⟨hZero, _⟩ | hFirst
      · omega
      · exact Or.inr hFirst

end Bytes

namespace Json

open Bytes (byte isDigit ofText decimal)
open Token (lexOnto lexFrom lexText lexNumber lexWhole keep mark? isBlank)

/-- Does not go on with a number. -/
def Apart (rest : Bytes) : Prop :=
  ∀ b ∈ rest.head?, isDigit b = false ∧ b ≠ 46 ∧ b ≠ 101 ∧ b ≠ 69

theorem Apart.append {bytes rest : Bytes} (h : Apart bytes) (hRest : Apart rest) :
    Apart (bytes ++ rest) := by
  cases bytes with
  | nil => exact hRest
  | cons b more => exact h

/-- These bytes are the text of these tokens, if what follows them is apart. -/
def Spells (bytes : Bytes) (tokens : List Token) : Prop :=
  ∀ done rest, Apart rest → lexOnto done (bytes ++ rest) = lexOnto (tokens.reverse ++ done) rest

/-- These bytes are the text of these tokens, whatever follows them. -/
def Closed (bytes : Bytes) (tokens : List Token) : Prop :=
  ∀ done rest, lexOnto done (bytes ++ rest) = lexOnto (tokens.reverse ++ done) rest

variable {bytes more : Bytes} {tokens others : List Token}

theorem Spells.append (h : Spells bytes tokens) (hMore : Spells more others) (hApart : Apart more) :
    Spells (bytes ++ more) (tokens ++ others) := by
  intro done rest hRest
  rw [List.append_assoc, h done (more ++ rest) (hApart.append hRest), hMore _ rest hRest,
    List.reverse_append, List.append_assoc]

namespace Closed

theorem nil : Closed [] [] := fun _ _ => rfl

theorem spells (h : Closed bytes tokens) : Spells bytes tokens := fun done rest _ => h done rest

theorem append (h : Closed bytes tokens) (hMore : Closed more others) :
    Closed (bytes ++ more) (tokens ++ others) := by
  intro done rest
  rw [List.append_assoc, h, hMore, List.reverse_append, List.append_assoc]

/-- Nothing is asked of what stands behind closed bytes. -/
theorem append_spells (h : Closed bytes tokens) (hMore : Spells more others) :
    Spells (bytes ++ more) (tokens ++ others) := by
  intro done rest hRest
  rw [List.append_assoc, h, hMore _ rest hRest, List.reverse_append, List.append_assoc]

theorem blank {b : UInt8} (hBlank : isBlank b = true) : Closed [b] [] := by
  intro done rest
  rw [List.singleton_append, lexOnto, if_pos hBlank]
  rfl

/-- A token that is the same whatever follows. -/
theorem token {b : UInt8} {token : Token} (hBlank : isBlank b = false)
    (hToken : ∀ rest, lexFrom b (bytes ++ rest) = (token, rest)) :
    Closed (b :: bytes) [token] := by
  intro done rest
  rw [List.cons_append, lexOnto, if_neg (Bool.eq_false_iff.mp hBlank), hToken rest]
  rfl

theorem mark {b : UInt8} {token : Token} (hBlank : isBlank b = false)
    (hMark : mark? b = some token) : Closed [b] [token] :=
  .token hBlank fun rest => by rw [lexFrom, hMark]; rfl

theorem freshLine (depth : Nat) : Closed (Layout.freshLine depth) [] := by
  have hBlanks (count : Nat) : Closed (List.replicate count 32) [] := by
    induction count with
    | zero => exact .nil
    | succ count ih => exact (Closed.blank rfl).append ih
  exact (Closed.blank rfl).append (hBlanks _)

end Closed

section Numbers

theorem takeWhile_digits {digits rest : Bytes} (hDigits : ∀ b ∈ digits, isDigit b = true)
    (hRest : Apart rest) : (digits ++ rest).takeWhile isDigit = digits := by
  rw [List.takeWhile_append_of_pos hDigits]
  cases rest with
  | nil => simp
  | cons b more => simp [(hRest b rfl).1]

theorem dropWhile_digits {digits rest : Bytes} (hDigits : ∀ b ∈ digits, isDigit b = true)
    (hRest : Apart rest) : (digits ++ rest).dropWhile isDigit = rest := by
  rw [List.dropWhile_append_of_pos hDigits]
  cases rest with
  | nil => simp
  | cons b more => simp [(hRest b rfl).1]

/-- Nothing is left over of digits that denote a word. -/
theorem keep_eq {kept : Nat} {digits : Bytes} (h : Bytes.extend kept digits ≤ wordMax) :
    keep kept digits = (Bytes.extend kept digits, []) := by
  induction digits generalizing kept with
  | nil => rfl
  | cons b rest ih =>
      have hLonger := Bytes.le_extend (10 * kept + (b.toNat - 48)) rest
      rw [keep, if_pos (Nat.le_trans hLonger h), ih h]
      rfl

theorem keep_decimal {n : Nat} (h : n ≤ wordMax) : keep 0 (decimal n) = (n, []) := by
  have hValue := Bytes.extend_decimal n
  rw [keep_eq (by rwa [hValue]), hValue]

theorem lexWhole_apart (digits : Nat) {rest : Bytes} (h : Apart rest) :
    lexWhole false digits [] rest = (.number ⟨false, digits, 0, true⟩, rest) := by
  cases rest with
  | nil => rfl
  | cons b more =>
      obtain ⟨_, hPoint, hSmall, hLarge⟩ := h b rfl
      unfold lexWhole
      split <;> simp_all

theorem lexNumber_decimal {n : Nat} (h : n ≤ wordMax) {rest : Bytes} (hRest : Apart rest) :
    lexNumber false (decimal n ++ rest) = (.number ⟨false, n, 0, true⟩, rest) := by
  have hDigits : ∀ b ∈ decimal n, isDigit b = true := fun b => Bytes.isDigit_of_mem_decimal
  obtain ⟨first, more, hCons, hFirst⟩ := Bytes.decimal_cons (n := n)
  unfold lexNumber
  simp only [takeWhile_digits hDigits hRest, dropWhile_digits hDigits hRest]
  split
  · simp_all
  · rename_i hZero
    rw [hCons] at hZero
    simp_all
  · rw [keep_decimal h]
    exact lexWhole_apart n hRest

/-- A digit begins a number and nothing else. -/
theorem lexFrom_digit {b : UInt8} (h : isDigit b = true) :
    isBlank b = false ∧ ∀ rest, lexFrom b rest = lexNumber false (b :: rest) := by
  obtain ⟨n, hLess, rfl⟩ := Bytes.exists_digit h
  interval_cases n <;> exact ⟨rfl, fun rest => rfl⟩

theorem spells_decimal {n : Nat} (h : n ≤ wordMax) :
    Spells (decimal n) [.number ⟨false, n, 0, true⟩] := by
  obtain ⟨first, more, hCons, _⟩ := Bytes.decimal_cons (n := n)
  obtain ⟨hBlank, hLex⟩ :=
    lexFrom_digit (Bytes.isDigit_of_mem_decimal (n := n) (b := first) (by simp [hCons]))
  intro done rest hRest
  have hLexed := lexNumber_decimal h hRest
  rw [hCons] at hLexed ⊢
  rw [List.cons_append, lexOnto, if_neg (Bool.eq_false_iff.mp hBlank), hLex, ← List.cons_append,
    hLexed]
  rfl

end Numbers

section Texts

/-- A text that is written as it is: without quotes, backslashes and control characters. -/
def Plain (text : String) : Prop := ∀ b ∈ ofText text, b ≠ 34 ∧ b ≠ 92 ∧ 32 ≤ b

instance (text : String) : Decidable (Plain text) :=
  List.decidableBAll (fun b => b ≠ 34 ∧ b ≠ 92 ∧ 32 ≤ b) (ofText text)

theorem lexText_plain {raw : Bytes} (h : ∀ b ∈ raw, b ≠ 34 ∧ b ≠ 92 ∧ 32 ≤ b)
    (done rest : Bytes) :
    lexText done (raw ++ 34 :: rest) = (.text (done.reverse ++ raw) none, rest) := by
  induction raw generalizing done with
  | nil =>
      rw [List.nil_append, List.append_nil]
      unfold lexText
      simp
  | cons b more ih =>
      obtain ⟨⟨hQuote, hEscape, hControl⟩, hMore⟩ := List.forall_mem_cons.mp h
      have hPassed : lexText done (b :: (more ++ 34 :: rest)) =
          lexText (b :: done) (more ++ 34 :: rest) := by
        rw [lexText.eq_def]
        split <;> simp_all
      rw [List.cons_append, hPassed, ih hMore, List.reverse_cons, List.append_assoc]
      rfl

theorem closed_quoted {text : String} (h : Plain text) :
    Closed (Layout.quoted text) [.text (ofText text) none] := by
  have hLex (rest : Bytes) : lexFrom (byte '"') ((ofText text ++ [byte '"']) ++ rest) =
      (.text (ofText text) none, rest) := by
    rw [List.append_assoc]
    exact lexText_plain h [] rest
  exact .token rfl hLex

end Texts

section Parts

/-- Parts with commas between them, and one before the first unless it is the first of all. -/
def listed (first : Bool) : List (List Token) → List Token
  | [] => []
  | part :: more => (if first then [] else [.comma]) ++ part ++ listed false more

/-- The tokens of an array, given those of its items. -/
def arrayTokens (parts : List (List Token)) : List Token :=
  .openBracket :: listed true parts ++ [.closeBracket]

/-- The tokens of a member, given those of its value. -/
def memberTokens (name : String) (value : List Token) : List Token :=
  .text (ofText name) none :: .colon :: value

/-- The tokens of an object, given those of its values. -/
def objectTokens (members : List (String × List Token)) : List Token :=
  .openBrace :: listed true (members.map fun (name, value) => memberTokens name value) ++
    [.closeBrace]

theorem apart_freshLine (depth : Nat) (bytes : Bytes) :
    Apart (Layout.freshLine depth ++ bytes) := by
  rintro b ⟨⟩
  decide

/-- Parts behind the first one, each on a line of its own. -/
theorem spells_more (depth : Nat) {parts : List Bytes} {tokens : List (List Token)}
    (h : List.Forall₂ Spells parts tokens) :
    let lines := parts.flatMap fun part => byte ',' :: Layout.freshLine (depth + 1) ++ part
    Spells lines (listed false tokens) ∧ Apart lines := by
  induction h with
  | nil => exact ⟨Closed.nil.spells, by simp [Apart]⟩
  | @cons part spelled parts more hPart _ ih =>
      obtain ⟨hMore, hApart⟩ := ih
      have hComma : Closed [byte ','] [.comma] := .mark rfl rfl
      have hLine := (hComma.append (.freshLine (depth + 1))).append_spells hPart
      refine ⟨?_, ?_⟩
      · simpa [listed] using hLine.append hMore hApart
      · rintro b ⟨⟩
        decide

theorem spells_block {opening closing : UInt8} {openToken closeToken : Token} (depth : Nat)
    {parts : List Bytes} {tokens : List (List Token)} (hOpening : Closed [opening] [openToken])
    (hClosing : Closed [closing] [closeToken]) (h : List.Forall₂ Spells parts tokens) :
    Spells (Layout.block opening closing depth parts)
      (openToken :: listed true tokens ++ [closeToken]) := by
  cases h with
  | nil => exact (hOpening.append hClosing).spells
  | @cons part spelled parts more hPart hMore =>
      obtain ⟨hLines, hApart⟩ := spells_more depth hMore
      have hFirst := (hOpening.append (.freshLine (depth + 1))).append_spells hPart
      have hEnd := ((Closed.freshLine depth).append hClosing).spells
      have hBlock := (hFirst.append hLines hApart).append hEnd
        (apart_freshLine depth [closing])
      simpa [Layout.block, listed] using hBlock

theorem spells_array (depth : Nat) {parts : List Bytes} {tokens : List (List Token)}
    (h : List.Forall₂ Spells parts tokens) :
    Spells (Layout.array depth parts) (arrayTokens tokens) :=
  spells_block depth (.mark rfl rfl) (.mark rfl rfl) h

theorem spells_member {name : String} (hName : Plain name) (h : Spells bytes tokens) :
    Spells (Layout.member name bytes) (memberTokens name tokens) := by
  have hColon : Closed [byte ':', byte ' '] [.colon] :=
    (Closed.mark rfl rfl).append (.blank rfl)
  have hMember := ((closed_quoted hName).append hColon).append_spells h
  simpa [Layout.member, memberTokens] using hMember

/-- An object of plainly named values. -/
theorem spells_object (depth : Nat) {members : List (String × Bytes)}
    {values : List (String × List Token)}
    (h : List.Forall₂ (fun member value => member.1 = value.1 ∧ Plain value.1 ∧
      Spells member.2 value.2) members values) :
    Spells (Layout.object depth members) (objectTokens values) := by
  refine spells_block depth (.mark rfl rfl) (.mark rfl rfl) ?_
  rw [List.forall₂_map_left_iff, List.forall₂_map_right_iff]
  refine h.imp ?_
  rintro ⟨_, value⟩ ⟨name, tokens⟩ ⟨rfl, hName, hValue⟩
  exact spells_member hName hValue

end Parts

/-- The tokens of a document that is printed. -/
theorem Spells.lex (h : Spells bytes tokens) : Token.lex bytes = tokens := by
  have hLexed := h [] [] (by simp [Apart])
  rw [List.append_nil, List.append_nil] at hLexed
  rw [Token.lex, hLexed, lexOnto, List.reverse_reverse]

end Json

end StoreBench
