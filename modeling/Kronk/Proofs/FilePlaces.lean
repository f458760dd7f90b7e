import Mathlib.Data.List.Perm.Subperm
import Kronk.FileTree
import Kronk.Proofs.PathTail

/-!
# Files and their places

Seen from an absolute directory, every path has a clean absolute spelling, and walking along it
leads to the node under that very spelling.  So a file that can be read is one of the files of the
tree, and different readable paths are different files.
-/

namespace Kronk

namespace Path

/-- The elements that a clean absolute path is made of. -/
def IsPlain (element : List Char) : Prop := IsOrdinary element ∧ '/' ∉ element

theorem slash_notMem_split (text : List Char) : ∀ element ∈ split text, '/' ∉ element := by
  induction text with
  | nil => simp [split]
  | cons c rest ih =>
    intro element member
    rw [split] at member
    split at member
    · rcases List.mem_cons.mp member with rfl | later
      · exact List.not_mem_nil
      · exact ih element later
    · rename_i different
      cases elements : split rest with
      | nil => exact absurd elements (split_ne_nil rest)
      | cons first later =>
        rw [elements] at member ih
        rcases List.mem_cons.mp member with rfl | below
        · intro slash
          rcases List.mem_cons.mp slash with same | inside
          · exact different same.symm
          · exact ih first List.mem_cons_self inside
        · exact ih element (List.mem_cons_of_mem _ below)

/-- From the root, `..` never stays. -/
theorem pushElement_plain {stack : List (List Char)} {element : List Char}
    (plain : ∀ inside ∈ stack, IsPlain inside) (noSlash : '/' ∉ element) :
    ∀ inside ∈ pushElement true stack element, IsPlain inside := by
  unfold pushElement
  by_cases empty : element = [] ∨ element = ['.']
  · rw [if_pos empty]
    exact plain
  · rw [if_neg empty]
    rw [not_or] at empty
    by_cases dots : element = ['.', '.']
    · rw [if_pos dots]
      cases stack with
      | nil => simp
      | cons top below =>
        have notDots := (plain top List.mem_cons_self).1.2.2
        simp only [if_neg notDots]
        exact fun inside member => plain inside (List.mem_cons_of_mem _ member)
    · rw [if_neg dots]
      intro inside member
      rcases List.mem_cons.mp member with rfl | below
      · exact ⟨⟨empty.1, empty.2, dots⟩, noSlash⟩
      · exact plain inside below

variable {path : String}

theorem cleanElements_plain (absolute : isAbsolute path = true) :
    ∀ element ∈ cleanElements path, IsPlain element := by
  have folded : ∀ (elements stack : List (List Char)),
      (∀ element ∈ elements, '/' ∉ element) → (∀ inside ∈ stack, IsPlain inside) →
      ∀ inside ∈ elements.foldl (pushElement true) stack, IsPlain inside := by
    intro elements
    induction elements with
    | nil => exact fun _ _ plain => plain
    | cons element rest ih =>
      intro stack noSlash plain
      apply ih
      · exact fun other member => noSlash other (List.mem_cons_of_mem _ member)
      · exact pushElement_plain plain (noSlash element List.mem_cons_self)
  intro element member
  rw [cleanElements, absolute, List.mem_reverse] at member
  exact folded _ [] (slash_notMem_split path.toList) (by simp) element member

theorem split_joinElements {elements : List (List Char)} (nonempty : elements ≠ [])
    (noSlash : ∀ element ∈ elements, '/' ∉ element) : split (joinElements elements) = elements := by
  induction elements with
  | nil => exact absurd rfl nonempty
  | cons element rest ih =>
    have plain := noSlash element List.mem_cons_self
    cases rest with
    | nil => exact split_plain plain
    | cons next later =>
      have below := ih (by simp)
        fun other member => noSlash other (List.mem_cons_of_mem _ member)
      rw [joinElements, split_append_slash, split_plain plain, below, List.singleton_append]
      simp

def IsClean (path : String) : Prop :=
  ∃ elements, (∀ element ∈ elements, IsPlain element) ∧
    path = String.ofList ('/' :: joinElements elements)

theorem isClean_clean (absolute : isAbsolute path = true) : IsClean (clean path) := by
  refine ⟨cleanElements path, cleanElements_plain absolute, ?_⟩
  simp [clean, absolute]

theorem isAbsolute_append (absolute : isAbsolute path = true) (rest : String) :
    isAbsolute (path ++ rest) = true := by
  unfold isAbsolute at absolute ⊢
  rw [String.toList_append]
  cases characters : path.toList with
  | nil => simp [characters] at absolute
  | cons c later => simpa [characters] using absolute

theorem isClean_absolute {current : String} (rooted : isAbsolute current = true) (path : String) :
    IsClean (absolute current path) := by
  have present : current ≠ "" := by
    rintro rfl
    cases rooted
  unfold absolute
  by_cases isRooted : isAbsolute path = true
  · rw [if_pos isRooted]
    exact isClean_clean isRooted
  · rw [if_neg isRooted]
    by_cases empty : path = ""
    · have joined : join [current, path] = clean current := by simp [join, present, empty]
      rw [joined]
      exact isClean_clean rooted
    · have joined : join [current, path] = clean (current ++ "/" ++ path) := by
        simp [join, present, empty]
      rw [joined, String.append_assoc]
      exact isClean_clean (isAbsolute_append rooted _)

end Path

namespace FileTree

open Path

variable {tree : FileTree} {path : String}

/-- Walking along ordinary elements goes down by each of them. -/
theorem walk_plain {elements place reached : List (List Char)}
    (plain : ∀ element ∈ elements, IsPlain element)
    (walked : tree.walk place elements = .ok reached) : reached = elements.reverse ++ place := by
  induction elements generalizing place with
  | nil =>
    cases walked
    rfl
  | cons element rest ih =>
    obtain ⟨⟨nonempty, notDot, notDots⟩, -⟩ := plain element List.mem_cons_self
    rw [walk] at walked
    split at walked
    · cases walked
    · cases walked
    · rw [if_neg (not_or.mpr ⟨nonempty, notDot⟩), if_neg notDots] at walked
      split at walked
      · cases walked
      · have below := ih
          (fun other member => plain other (List.mem_cons_of_mem _ member)) walked
        simpa using below

/-- What stands at a path was found by walking along its elements. -/
theorem walk_of_stat {node : FileNode} (absolute : isAbsolute path = true)
    (found : tree.stat path = .ok node) :
    ∃ place, tree.walk [] (split path.toList) = .ok place ∧ tree.nodeAt? place = some node := by
  unfold stat elementsOf rooted at found
  rw [absolute] at found
  split at found
  · cases found
  split at found
  · cases found
  split at found
  · cases found
  simp only [if_true, bind, Except.bind] at found
  cases walked : tree.walk [] (split path.toList) with
  | error cause =>
    rw [walked] at found
    cases found
  | ok place =>
    rw [walked] at found
    cases there : tree.nodeAt? place with
    | none =>
      simp only [there] at found
      cases found
    | some other =>
      simp only [there] at found
      cases found
      exact ⟨place, rfl, there⟩

/-- At a clean spelling stands the node of that spelling. -/
theorem get?_of_stat {content : Option ByteArray} (isClean : IsClean path)
    (found : tree.stat path = .ok (.file content)) :
    tree.nodes.get? path = some (.file content) := by
  obtain ⟨elements, plain, rfl⟩ := isClean
  have absolute : isAbsolute (String.ofList ('/' :: joinElements elements)) = true := by
    simp [isAbsolute]
  obtain ⟨place, walked, there⟩ := walk_of_stat absolute found
  have fromRoot : tree.walk [] (split (joinElements elements)) = .ok place := by
    simpa [split, walk, nodeAt?] using walked
  cases elements with
  | nil =>
    cases fromRoot
    cases there
  | cons element rest =>
    rw [split_joinElements (by simp) fun other member => (plain other member).2] at fromRoot
    have reached := walk_plain plain fromRoot
    rw [List.append_nil] at reached
    subst reached
    simpa [nodeAt?] using there

/-- A file that can be read under a clean spelling is one of the files of the tree. -/
theorem mem_files_of_stat {content : Option ByteArray} (isClean : IsClean path)
    (found : tree.stat path = .ok (.file content)) : path ∈ tree.files := by
  obtain ⟨before, after, entries, -⟩ := List.lookup_eq_some_iff.mp (get?_of_stat isClean found)
  have listed : (path, FileNode.file content) ∈ tree.nodes.sorted := by
    apply (List.mergeSort_perm _ _).mem_iff.mpr
    simp [entries]
  exact List.mem_filterMap.mpr ⟨_, listed, rfl⟩

/-- There are no more different readable paths than files. -/
theorem length_le_files {paths : List String} (distinct : paths.Nodup)
    (readable : ∀ path ∈ paths, IsClean path ∧ ∃ content, tree.stat path = .ok (.file content)) :
    paths.length ≤ tree.files.length := by
  apply List.Subperm.length_le
  apply distinct.subperm
  intro path member
  obtain ⟨isClean, content, found⟩ := readable path member
  exact mem_files_of_stat isClean found

end FileTree

end Kronk
