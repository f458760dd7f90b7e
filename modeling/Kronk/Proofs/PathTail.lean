import Mathlib.Data.List.Infix
import Kronk.Path

/-!
# The last element of a path

Cleaning and joining paths keep the last element, unless it is empty, `.` or `..`.
-/

namespace Kronk.Path

def tail (text : List Char) : List Char := (text.reverse.takeWhile (· ≠ '/')).reverse

theorem tail_append {ending : List Char} (plain : '/' ∉ ending) (text : List Char) :
    tail (text ++ ending) = tail text ++ ending := by
  have passes : ∀ c ∈ ending.reverse, decide (c ≠ '/') = true := by
    intro c member
    simp only [decide_eq_true_eq]
    rintro rfl
    exact plain (List.mem_reverse.mp member)
  unfold tail
  rw [List.reverse_append, List.takeWhile_append_of_pos passes, List.reverse_append,
    List.reverse_reverse]

theorem tail_slash (text : List Char) : tail (text ++ ['/']) = [] := by
  simp [tail]

theorem tail_after_slash {ending : List Char} (plain : '/' ∉ ending) (text : List Char) :
    tail (text ++ '/' :: ending) = ending := by
  rw [← List.singleton_append, ← List.append_assoc, tail_append plain, tail_slash,
    List.nil_append]

theorem slash_notMem_tail (text : List Char) : '/' ∉ tail text := by
  intro member
  have passes := List.all_eq_true.mp (List.all_takeWhile (p := fun c : Char => decide (c ≠ '/')))
    '/' (List.mem_reverse.mp member)
  simp at passes

/-- A text is its last element, or ends with a slash and its last element. -/
theorem eq_tail_or_append (text : List Char) :
    text = tail text ∨ ∃ start, text = start ++ '/' :: tail text := by
  induction text using List.reverseRecOn with
  | nil => exact .inl rfl
  | append_singleton start c ih =>
    by_cases slash : c = '/'
    · subst slash
      exact .inr ⟨start, by rw [tail_slash]⟩
    · have plain : '/' ∉ [c] := by simpa using Ne.symm slash
      rw [tail_append plain]
      rcases ih with whole | ⟨front, rest⟩
      · exact .inl (by rw [← whole])
      · refine .inr ⟨front, ?_⟩
        rw [← List.cons_append, ← List.append_assoc, ← rest]

theorem tail_append_slash (first second : List Char) :
    tail (first ++ '/' :: second) = tail second := by
  have plain := slash_notMem_tail second
  rcases eq_tail_or_append second with whole | ⟨start, rest⟩
  · exact (tail_after_slash (whole ▸ plain) first).trans whole
  · conv_lhs => rw [rest]
    rw [← List.cons_append, ← List.append_assoc, tail_after_slash plain]

theorem split_ne_nil (text : List Char) : split text ≠ [] := by
  cases text with
  | nil => simp [split]
  | cons c rest =>
    rw [split]
    split
    · simp
    · split <;> simp

theorem split_append_slash (first second : List Char) :
    split (first ++ '/' :: second) = split first ++ split second := by
  induction first with
  | nil => simp [split]
  | cons c rest ih =>
    by_cases slash : c = '/'
    · simp [split, slash, ih]
    · simp only [List.cons_append, split, slash, if_false, ih]
      cases elements : split rest with
      | nil => exact absurd elements (split_ne_nil rest)
      | cons element later => simp

theorem split_plain {text : List Char} (plain : '/' ∉ text) : split text = [text] := by
  induction text with
  | nil => rfl
  | cons c rest ih =>
    have different : c ≠ '/' := fun same => plain (same ▸ List.mem_cons_self)
    have later := ih fun member => plain (List.mem_cons_of_mem c member)
    simp [split, different, later]

private theorem split_eq_append_tail (text : List Char) :
    ∃ start, split text = start ++ [tail text] := by
  rcases eq_tail_or_append text with whole | ⟨start, rest⟩
  · have plain : '/' ∉ text := whole ▸ slash_notMem_tail text
    exact ⟨[], by rw [split_plain plain, ← whole, List.nil_append]⟩
  · refine ⟨split start, ?_⟩
    rw [rest, split_append_slash, split_plain (slash_notMem_tail text),
      tail_after_slash (slash_notMem_tail text)]

/-- An element that cleaning leaves alone. -/
def IsOrdinary (element : List Char) : Prop :=
  element ≠ [] ∧ element ≠ ['.'] ∧ element ≠ ['.', '.']

private theorem cleanElements_eq_append {path : String} (ordinary : IsOrdinary (tail path.toList)) :
    ∃ start, cleanElements path = start ++ [tail path.toList] := by
  obtain ⟨start, elements⟩ := split_eq_append_tail path.toList
  obtain ⟨nonempty, notDot, notDots⟩ := ordinary
  refine ⟨(start.foldl (pushElement (isAbsolute path)) []).reverse, ?_⟩
  rw [cleanElements, elements, List.foldl_append]
  simp [pushElement, nonempty, notDot, notDots]

private theorem tail_joinElements {start : List (List Char)} {element : List Char}
    (plain : '/' ∉ element) : tail (joinElements (start ++ [element])) = element := by
  induction start with
  | nil => exact tail_append plain []
  | cons first later ih =>
    have joined : joinElements (first :: (later ++ [element])) =
        first ++ '/' :: joinElements (later ++ [element]) := by
      cases later <;> rfl
    rw [List.cons_append, joined, tail_append_slash, ih]

private theorem tail_clean {path : String} (ordinary : IsOrdinary (tail path.toList)) :
    tail (clean path).toList = tail path.toList := by
  obtain ⟨start, elements⟩ := cleanElements_eq_append ordinary
  have joined : tail (joinElements (start ++ [tail path.toList])) = tail path.toList :=
    tail_joinElements (slash_notMem_tail path.toList)
  have absolute := tail_append_slash [] (joinElements (start ++ [tail path.toList]))
  simp only [clean, elements]
  split
  · rw [String.toList_ofList]
    exact absolute.trans joined
  · rw [if_neg (by simp), String.toList_ofList, joined]

theorem tail_join {directory name : String} (ordinary : IsOrdinary (tail name.toList)) :
    tail (join [directory, name]).toList = tail name.toList := by
  have present : name ≠ "" := by
    rintro rfl
    exact ordinary.1 rfl
  by_cases empty : directory = ""
  · have joined : join [directory, name] = clean name := by
      simp [join, empty, present]
    rw [joined, tail_clean ordinary]
  · have joined : join [directory, name] = clean (directory ++ "/" ++ name) := by
      simp [join, empty, present]
    have tailed : tail (directory ++ "/" ++ name).toList = tail name.toList := by
      simp [tail_append_slash]
    rw [joined, tail_clean (by rwa [tailed]), tailed]

end Kronk.Path
