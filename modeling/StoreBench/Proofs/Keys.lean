import Std.Data.TreeMap

/-! Looking up keys in sorted maps. Keys are compared, but only equal ones compare as equal. -/
namespace StoreBench

theorem compare_eq_iff_eq {κ : Type} [Ord κ] [Std.LawfulEqOrd κ] (key other : κ) :
    compare key other = .eq ↔ other = key :=
  Std.LawfulEqOrd.compare_eq_iff_eq.trans eq_comm

section Keys

variable {κ α : Type} [Ord κ] [Std.TransOrd κ] [Std.LawfulEqOrd κ] [DecidableEq κ]

theorem getElem?_insert_eq (map : Std.TreeMap κ α) (key other : κ) (value : α) :
    (map.insert key value)[other]? = if other = key then some value else map[other]? := by
  rw [Std.TreeMap.getElem?_insert]
  simp only [compare_eq_iff_eq]

theorem getElem?_erase_eq (map : Std.TreeMap κ α) (key other : κ) :
    (map.erase key)[other]? = if other = key then none else map[other]? := by
  rw [Std.TreeMap.getElem?_erase]
  simp only [compare_eq_iff_eq]

end Keys

end StoreBench
