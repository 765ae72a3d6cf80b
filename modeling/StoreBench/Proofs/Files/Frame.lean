import StoreBench.Proofs.Files.Tree

/-! What saving a file changes. The directories that are missing on the way to the file are made,
the file is written at the end of its path, and everything else in the tree is what it was. -/
namespace StoreBench

namespace Path

/-- Where a path leads, part by part, from where it begins. -/
def way (path : Path) : List Location := path.parts.scanl FileTree.step path.start

/-- The places of the directories that a file lies in. -/
def around (path : Path) : List Location :=
  match path.parent? with
  | some parent => parent.way
  | none => []

end Path

namespace FileTree

variable {tree middle after : FileTree} {path : Path} {content : Bytes}

/-- Nothing but directories was added to the tree, and those at these places alone. -/
def Extends (tree : FileTree) (places : List Location) (after : FileTree) : Prop :=
  ∀ location, after.node? location = tree.node? location ∨
    location ∈ places ∧ tree.node? location = none ∧ after.node? location = some .directory

namespace Extends

variable {places more : List Location}

theorem refl (tree : FileTree) (places : List Location) : Extends tree places tree :=
  fun _ => .inl rfl

theorem mono (h : Extends tree places after) (hMore : places ⊆ more) : Extends tree more after := by
  intro location
  obtain hSame | ⟨hPlace, hMade⟩ := h location
  · exact .inl hSame
  · exact .inr ⟨hMore hPlace, hMade⟩

theorem trans (hFirst : Extends tree places middle) (hSecond : Extends middle places after) :
    Extends tree places after := by
  intro location
  obtain hSame | ⟨hPlace, hNone, hMade⟩ := hSecond location
  · rw [hSame]
    exact hFirst location
  · obtain hEarlier | ⟨_, _, hThere⟩ := hFirst location
    · exact .inr ⟨hPlace, hEarlier.symm.trans hNone, hMade⟩
    · rw [hNone] at hThere
      cases hThere

theorem put {location : Location} (hNone : tree.node? location = none)
    (hPlace : location ∈ places) : Extends tree places (tree.put location .directory) := by
  intro other
  have hFree : tree.node? location ≠ some .directory := by simp [hNone]
  rw [node?_put .directory hFree]
  by_cases hSame : other = location
  · subst hSame
    exact .inr ⟨hPlace, hNone, if_pos rfl⟩
  · exact .inl (if_neg hSame)

end Extends

/-- Making directories adds those that a path leads through, and only where nothing is. -/
theorem makeInward_extends (tree : FileTree) (location : Location) (already : Bool)
    (parts : List String) :
    tree.Extends (parts.scanl step location) (tree.makeInward location already parts).2 := by
  induction parts generalizing tree location already with
  | nil => exact .refl tree _
  | cons part inward ih =>
      have hInward : inward.scanl step (step location part) ⊆ (part :: inward).scanl step location := by
        rw [List.scanl_cons]
        exact List.subset_cons_self _ _
      rw [makeInward]
      split
      · rename_i inner hLookUp
        obtain ⟨_, rfl, _⟩ := lookUp_eq_ok_iff.mp hLookUp
        exact (ih tree _ already).mono hInward
      · rename_i inner hLookUp
        obtain ⟨_, rfl, hNone⟩ := lookUp_eq_ok_iff.mp hLookUp
        have hFirst : step location part ∈ inward.scanl step (step location part) := by
          cases inward <;> simp
        exact (Extends.put hNone.symm (hInward hFirst)).trans ((ih _ _ true).mono hInward)
      · exact .refl tree _
      · exact .refl tree _

/-- Making the directories around a file adds no others, even if one of them cannot be made. -/
theorem makeParents_extends (tree : FileTree) (path : Path) :
    tree.Extends path.around (tree.makeParents path).2 := by
  rw [makeParents, Path.around]
  cases path.parent? with
  | none => exact .refl tree _
  | some parent =>
      dsimp only
      rw [makeAll]
      split
      · exact makeInward_extends tree _ false _
      · exact .refl tree _

/-- One file was written, the one at the end of the path, and it has this content. Besides, missing
directories around it were made. -/
structure WroteAlone (tree : FileTree) (path : Path) (content : Bytes) (after : FileTree) :
    Prop where
  read : after.read path = .ok content
  others : ∃ location, after.locate path = .ok (location, some (.file content)) ∧
    ∀ other, other ≠ location → after.node? other = tree.node? other ∨
      other ∈ path.around ∧ tree.node? other = none ∧ after.node? other = some .directory

theorem wroteAlone (h : (tree.makeParents path).2.write path content = .ok after) :
    tree.WroteAlone path content after := by
  have hRead := read_written h
  obtain ⟨_, location, hLocate⟩ := read_eq_ok_iff.mp hRead
  refine ⟨hRead, location, hLocate, fun other hOther => ?_⟩
  obtain ⟨_, place, hPlace, hFree, rfl⟩ := write_eq_ok h
  have hSame : place = location := by
    obtain ⟨_, hFound⟩ := (keeps_put (.file content) hFree).locate hPlace
    exact (Prod.mk.inj (Except.ok.inj (hFound.symm.trans hLocate))).1
  rw [node?_put _ hFree, if_neg (hSame ▸ hOther)]
  exact makeParents_extends tree path other

end FileTree

end StoreBench
