/-! Sorting by a number. Items that their numbers tell apart are sorted alike in whatever order they
stand, so what is made of sorted items does not depend on that order either. -/
namespace StoreBench

variable {α : Type}

theorem mergeSort_pairwise (number : α → Nat) (items : List α) :
    (items.mergeSort fun a b => number a ≤ number b).Pairwise fun a b => number a ≤ number b := by
  let le (a b : α) : Bool := number a ≤ number b
  have hTrans (a b c : α) : le a b → le b c → le a c := by simpa [le] using Nat.le_trans
  have hTotal (a b : α) : le a b || le b a := by simpa [le] using Nat.le_total _ _
  simpa [le] using List.pairwise_mergeSort hTrans hTotal items

theorem mergeSort_of_perm (number : α → Nat) {items reordered : List α}
    (hApart : ∀ a ∈ items, ∀ b ∈ items, number a = number b → a = b)
    (h : reordered.Perm items) :
    reordered.mergeSort (fun a b => number a ≤ number b) =
      items.mergeSort (fun a b => number a ≤ number b) := by
  have hSorted := List.mergeSort_perm items fun a b => number a ≤ number b
  have hReordered := (List.mergeSort_perm reordered fun a b => number a ≤ number b).trans h
  apply List.Perm.eq_of_pairwise _ (mergeSort_pairwise number reordered)
    (mergeSort_pairwise number items) (hReordered.trans hSorted.symm)
  intro a b hFirst hSecond hLess hMore
  exact hApart a (hReordered.mem_iff.mp hFirst) b (hSorted.mem_iff.mp hSecond)
    (Nat.le_antisymm hLess hMore)

end StoreBench
