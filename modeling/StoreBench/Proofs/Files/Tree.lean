import StoreBench.Files.Tree
import StoreBench.Proofs.Keys
import StoreBench.Proofs.Outcome

/-! What a file tree keeps. A path leads to the same location as long as the directories on its way
are there, and neither making directories nor writing files takes any away. So a file that was
written is found again, and so is every other file. -/
namespace StoreBench

namespace FileTree

variable {tree middle after : FileTree} {location inner other : Location} {path : Path}
  {content : Bytes} {found : Option Node} {part : String}

theorem node?_given (h : location.given = true) : tree.node? location = some .directory := by
  rw [node?, if_pos h]

/-- Whatever is put in the place of no directory stands there. -/
theorem node?_put (node : Node) (h : tree.node? location ≠ some .directory) :
    (tree.put location node).node? other = if other = location then some node
      else tree.node? other := by
  have hFree : location.given ≠ true := by
    intro hGiven
    exact h (node?_given hGiven)
  rw [node?, node?, put, getElem?_insert_eq]
  by_cases hSame : other = location
  · rw [if_pos hSame, if_pos hSame, hSame, if_neg hFree]
  · rw [if_neg hSame, if_neg hSame]

section Looking

theorem lookUp_eq_ok_iff : tree.lookUp location part = .ok (inner, found) ↔
    part.utf8ByteSize ≤ Path.longestName ∧ inner = step location part ∧
      found = tree.node? inner := by
  rw [lookUp]
  by_cases hLong : Path.longestName < part.utf8ByteSize
  · rw [if_pos hLong]
    simp only [reduceCtorEq, Nat.not_le_of_lt hLong, false_and]
  · rw [if_neg hLong, and_iff_right (Nat.le_of_not_lt hLong), Except.ok.injEq, Prod.mk.injEq]
    constructor
    · rintro ⟨rfl, rfl⟩
      exact ⟨rfl, rfl⟩
    · rintro ⟨rfl, rfl⟩
      exact ⟨rfl, rfl⟩

theorem enter_eq_ok_iff : tree.enter location part = .ok inner ↔
    tree.lookUp location part = .ok (inner, some .directory) := by
  rw [enter]
  constructor
  · intro h
    split at h
    · rename_i hLookUp
      cases h
      exact hLookUp
    · cases h
    · cases h
    · cases h
  · intro hLookUp
    rw [hLookUp]

theorem lookUp_elsewhere (after : FileTree)
    (h : tree.lookUp location part = .ok (inner, found)) :
    after.lookUp location part = .ok (inner, after.node? inner) := by
  obtain ⟨hShort, hStep, _⟩ := lookUp_eq_ok_iff.mp h
  exact lookUp_eq_ok_iff.mpr ⟨hShort, hStep, rfl⟩

/-- Every directory of the tree is one of the other tree too. -/
def Keeps (tree after : FileTree) : Prop :=
  ∀ location, tree.node? location = some .directory → after.node? location = some .directory

variable (hKeeps : Keeps tree after)
include hKeeps

theorem Keeps.enter (h : tree.enter location part = .ok inner) :
    after.enter location part = .ok inner := by
  rw [enter_eq_ok_iff] at h ⊢
  obtain ⟨_, _, hNode⟩ := lookUp_eq_ok_iff.mp h
  rw [lookUp_elsewhere after h, hKeeps inner hNode.symm]

/-- The way to a path goes through directories alone. -/
theorem Keeps.outer (h : tree.outer path = .ok location) : after.outer path = .ok location := by
  obtain ⟨_, hCheck, hWalk⟩ := exists_of_bind_eq_ok h
  have hWalked (parts : List String) (start : Location)
      (hWalk : parts.foldlM tree.enter start = .ok location) :
      parts.foldlM after.enter start = .ok location := by
    induction parts generalizing start with
    | nil => exact hWalk
    | cons part inward ih =>
        rw [List.foldlM_cons] at hWalk ⊢
        obtain ⟨inner, hEnter, hRest⟩ := exists_of_bind_eq_ok hWalk
        rw [hKeeps.enter hEnter]
        exact ih inner hRest
  rw [FileTree.outer, hCheck]
  exact hWalked _ _ hWalk

theorem Keeps.locate (h : tree.locate path = .ok (location, found)) :
    found = tree.node? location ∧ after.locate path = .ok (location, after.node? location) := by
  obtain ⟨outer, hOuter, hLast⟩ := exists_of_bind_eq_ok h
  rw [FileTree.locate, hKeeps.outer hOuter]
  cases hPart : path.parts.getLast? with
  | none =>
      simp only [hPart] at hLast
      cases hLast
      exact ⟨rfl, rfl⟩
  | some part =>
      simp only [hPart] at hLast
      obtain ⟨_, _, hFound⟩ := lookUp_eq_ok_iff.mp hLast
      exact ⟨hFound, lookUp_elsewhere after hLast⟩

end Looking

theorem locate_eq_ok (h : tree.locate path = .ok (location, found)) :
    found = tree.node? location := by
  have hSame : Keeps tree tree := fun _ hNode => hNode
  exact (hSame.locate h).1

theorem read_eq_ok_iff : tree.read path = .ok content ↔
    path.directory = false ∧
      ∃ location, tree.locate path = .ok (location, some (.file content)) := by
  rw [read]
  constructor
  · intro h
    split at h
    · cases h
    · cases h
    · cases h
    · rename_i location found hLocate
      by_cases hDirectory : path.directory = true
      · rw [if_pos hDirectory] at h
        cases h
      · rw [if_neg hDirectory] at h
        cases h
        exact ⟨Bool.eq_false_iff.mpr hDirectory, location, hLocate⟩
  · rintro ⟨hFile, location, hLocate⟩
    rw [hLocate]
    simp only [hFile, Bool.false_eq_true, if_false]

section Making

/-- Everything that is in the tree is in the other tree too. -/
def Within (tree after : FileTree) : Prop :=
  ∀ location, tree.node? location ≠ none → after.node? location = tree.node? location

theorem Within.refl (tree : FileTree) : Within tree tree := fun _ _ => rfl

theorem Within.trans (hFirst : Within tree middle) (hSecond : Within middle after) :
    Within tree after := by
  intro location hNode
  have hMiddle := hFirst location hNode
  rw [hSecond location (by rwa [hMiddle]), hMiddle]

theorem Within.keeps (h : Within tree after) : Keeps tree after := by
  intro location hNode
  rw [h location (by simp [hNode]), hNode]

theorem within_put (hNone : tree.node? location = none) (node : Node) :
    Within tree (tree.put location node) := by
  intro other hOther
  have hFree : tree.node? location ≠ some .directory := by simp [hNone]
  have hElsewhere : other ≠ location := by
    rintro rfl
    exact hOther hNone
  rw [node?_put node hFree, if_neg hElsewhere]

theorem Within.read (hWithin : Within tree after) (h : tree.read path = .ok content) :
    after.read path = .ok content := by
  obtain ⟨hFile, location, hLocate⟩ := read_eq_ok_iff.mp h
  obtain ⟨hNode, hLocateAfter⟩ := hWithin.keeps.locate hLocate
  refine read_eq_ok_iff.mpr ⟨hFile, location, ?_⟩
  rw [hLocateAfter, hWithin location (by simp [← hNode]), hNode]

theorem makeInward_within (tree : FileTree) (location : Location) (already : Bool)
    (parts : List String) : Within tree (tree.makeInward location already parts).2 := by
  induction parts generalizing tree location already with
  | nil => exact .refl tree
  | cons part inward ih =>
      rw [makeInward]
      split
      · exact ih _ _ _
      · rename_i inner hLookUp
        obtain ⟨_, _, hNone⟩ := lookUp_eq_ok_iff.mp hLookUp
        exact (within_put hNone.symm .directory).trans (ih _ _ _)
      · exact .refl tree
      · exact .refl tree

/-- Making directories takes nothing away. -/
theorem makeParents_within (tree : FileTree) (path : Path) :
    Within tree (tree.makeParents path).2 := by
  rw [makeParents]
  split
  · rw [makeAll]
    split
    · exact makeInward_within _ _ _ _
    · exact .refl tree
  · exact .refl tree

end Making

section Writing

/-- Both paths lead to the same place. -/
def SamePlace (tree : FileTree) (path other : Path) : Prop :=
  ∃ place, tree.locate path = .ok place ∧ tree.locate other = .ok place

/-- The file was created: it has its content, and every other file still has its own. -/
structure Created (tree : FileTree) (path : Path) (content : Bytes) (after : FileTree) : Prop where
  content : after.read path = .ok content
  others : ∀ other bytes, tree.read other = .ok bytes → ¬after.SamePlace other path →
    after.read other = .ok bytes

theorem write_eq_ok (h : tree.write path content = .ok after) :
    path.directory = false ∧ ∃ location, tree.locate path = .ok (location, tree.node? location) ∧
      tree.node? location ≠ some .directory ∧ after = tree.put location (.file content) := by
  obtain ⟨_, _, hWritten⟩ := exists_of_bind_eq_ok h
  by_cases hDirectory : path.directory = true
  · rw [if_pos hDirectory] at hWritten
    cases hWritten
  · rw [if_neg hDirectory] at hWritten
    obtain ⟨⟨location, found⟩, hLocate, hPut⟩ := exists_of_bind_eq_ok hWritten
    obtain rfl := locate_eq_ok hLocate
    refine ⟨Bool.eq_false_iff.mpr hDirectory, location, hLocate, ?_⟩
    split at hPut
    · cases hPut
    · rename_i hFree hPlace
      cases hPlace
      cases hPut
      exact ⟨hFree, rfl⟩

theorem keeps_put (node : Node) (h : tree.node? location ≠ some .directory) :
    Keeps tree (tree.put location node) := by
  intro other hOther
  have hElsewhere : other ≠ location := by
    rintro rfl
    exact h hOther
  rw [node?_put node h, if_neg hElsewhere, hOther]

variable (hWrite : tree.write path content = .ok after)
include hWrite

theorem read_written : after.read path = .ok content := by
  obtain ⟨hFile, location, hLocate, hFree, rfl⟩ := write_eq_ok hWrite
  obtain ⟨_, hLocateAfter⟩ := (keeps_put (.file content) hFree).locate hLocate
  refine read_eq_ok_iff.mpr ⟨hFile, location, ?_⟩
  rw [hLocateAfter, node?_put _ hFree, if_pos rfl]

/-- Other files are what they were. -/
theorem read_unwritten {untouched : Path} {bytes : Bytes} (hRead : tree.read untouched = .ok bytes)
    (hElsewhere : ¬after.SamePlace untouched path) : after.read untouched = .ok bytes := by
  obtain ⟨_, location, hLocate, hFree, rfl⟩ := write_eq_ok hWrite
  obtain ⟨hFile, place, hFound⟩ := read_eq_ok_iff.mp hRead
  have hKeeps := keeps_put (.file content) hFree
  obtain ⟨hNode, hFoundAfter⟩ := hKeeps.locate hFound
  obtain ⟨_, hLocateAfter⟩ := hKeeps.locate hLocate
  have hOther : place ≠ location := by
    rintro rfl
    exact hElsewhere ⟨_, hFoundAfter, hLocateAfter⟩
  refine read_eq_ok_iff.mpr ⟨hFile, place, ?_⟩
  rw [hFoundAfter, node?_put _ hFree, if_neg hOther, hNode]

omit hWrite

theorem created (hWrite : (tree.makeParents path).2.write path content = .ok after) :
    tree.Created path content after where
  content := read_written hWrite
  others _ _ hRead hElsewhere :=
    read_unwritten hWrite ((makeParents_within tree path).read hRead) hElsewhere

end Writing

end FileTree

end StoreBench
