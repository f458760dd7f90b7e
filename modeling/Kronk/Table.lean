/-!
# Tables keyed by names

A table is a list of entries with at most one live entry per key: inserting under a key that is
already there replaces its value in place.  Reports list entries in the order of their keys.
-/

namespace Kronk

/-- A finite map from names, in the order of first insertion. -/
structure Table (α : Type) where
  entries : List (String × α) := []

namespace Table

variable {α : Type}

def empty : Table α := {}

def get? (table : Table α) (key : String) : Option α := table.entries.lookup key

def contains (table : Table α) (key : String) : Bool := (table.get? key).isSome

/-- Entries with the value under `key` replaced, or with a new entry at the end. -/
def insertEntry (key : String) (value : α) : List (String × α) → List (String × α)
  | [] => [(key, value)]
  | entry :: rest =>
    if key = entry.1 then (key, value) :: rest else entry :: insertEntry key value rest

def insert (table : Table α) (key : String) (value : α) : Table α :=
  ⟨insertEntry key value table.entries⟩

def sorted (table : Table α) : List (String × α) :=
  table.entries.mergeSort (fun left right => decide (left.1 ≤ right.1))

/-- The table of a list of entries, where a later entry replaces an earlier one of its key. -/
def ofList (entries : List (String × α)) : Table α :=
  entries.foldl (fun table entry => table.insert entry.1 entry.2) empty

theorem lookup_insertEntry (key other : String) (value : α) (entries : List (String × α)) :
    (insertEntry key value entries).lookup other =
      if other = key then some value else entries.lookup other := by
  induction entries with
  | nil =>
    by_cases same : other = key
    · simp [insertEntry, same]
    · simp [insertEntry, List.lookup_cons, same, beq_false_of_ne same]
  | cons entry rest ih =>
    obtain ⟨name, current⟩ := entry
    by_cases here : key = name
    · subst here
      by_cases same : other = key
      · simp [insertEntry, same]
      · simp [insertEntry, List.lookup_cons, same, beq_false_of_ne same]
    · simp only [insertEntry, here, if_false, List.lookup_cons, ih]
      by_cases same : other = key
      · simp [same, beq_false_of_ne here]
      · simp [same]

theorem insertEntry_new {key : String} {value : α} {entries : List (String × α)}
    (absent : entries.lookup key = none) :
    insertEntry key value entries = entries ++ [(key, value)] := by
  induction entries with
  | nil => rfl
  | cons entry rest ih =>
    obtain ⟨name, current⟩ := entry
    rw [List.lookup_cons] at absent
    by_cases same : key = name
    · simp [same] at absent
    · rw [beq_false_of_ne same] at absent
      simp [insertEntry, same, ih absent]

theorem insertEntry_same {key : String} {value : α} {entries : List (String × α)}
    (found : entries.lookup key = some value) : insertEntry key value entries = entries := by
  induction entries with
  | nil => cases found
  | cons entry rest ih =>
    obtain ⟨name, current⟩ := entry
    rw [List.lookup_cons] at found
    by_cases same : key = name
    · simp only [same, beq_self_eq_true, Option.some.injEq] at found
      simp [insertEntry, same, found]
    · rw [beq_false_of_ne same] at found
      simp [insertEntry, same, ih found]

theorem lookup_of_mem {entries : List (String × α)} {name : String} {value : α}
    (distinct : (entries.map Prod.fst).Nodup) (member : (name, value) ∈ entries) :
    entries.lookup name = some value := by
  induction entries with
  | nil => cases member
  | cons entry rest ih =>
    obtain ⟨key, other⟩ := entry
    rw [List.map_cons, List.nodup_cons] at distinct
    rw [List.lookup_cons]
    rcases List.mem_cons.mp member with here | later
    · cases here
      simp
    · have differs : name ≠ key := by
        rintro rfl
        exact distinct.1 (List.mem_map.mpr ⟨_, later, rfl⟩)
      rw [beq_false_of_ne differs]
      exact ih distinct.2 later

theorem mem_of_lookup {entries : List (String × α)} {name : String} {value : α}
    (found : entries.lookup name = some value) : (name, value) ∈ entries := by
  induction entries with
  | nil => cases found
  | cons entry rest ih =>
    obtain ⟨key, other⟩ := entry
    rw [List.lookup_cons] at found
    by_cases same : name = key
    · subst same
      simp only [beq_self_eq_true, Option.some.injEq] at found
      exact found ▸ List.mem_cons_self
    · rw [beq_false_of_ne same] at found
      exact List.mem_cons_of_mem _ (ih found)

theorem contains_eq_false_iff {table : Table α} {key : String} :
    table.contains key = false ↔ table.get? key = none := by
  rw [contains, Option.isSome_eq_false_iff, Option.isNone_iff_eq_none]

@[simp] theorem get?_insert (table : Table α) (key other : String) (value : α) :
    (table.insert key value).get? other = if other = key then some value else table.get? other :=
  lookup_insertEntry key other value table.entries

end Table

end Kronk
