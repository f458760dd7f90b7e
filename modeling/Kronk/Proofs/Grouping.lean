import Mathlib.Data.List.Pairwise
import Kronk.Source.Expr

/-!
# How flat expressions group

A flat expression is an operand followed by steps, each an operator with its right operand.  It is
cut at its loosest operators; the segments between them group first, and then the segments are
combined: from the left, from the right, or as a chain of comparisons.
-/

namespace Kronk

/-- The precedences of the operators, the loosest first. -/
def Operator.levels : List Nat := [1, 8, 10, 20, 30, 40, 50, 60, 70, 80, 90, 100]

theorem Operator.precedence_mem_levels (operator : Operator) : operator.precedence ∈ levels := by
  cases operator <;> decide

theorem Operator.levels_sorted : levels.Pairwise (· < ·) := by
  decide

theorem Operator.assign_precedence_le (operator : Operator) :
    Operator.assign.precedence ≤ operator.precedence := by
  cases operator <;> decide

namespace Source

/-- An operator of a flat expression, its line, and the operand on its right. -/
structure Step where
  operator : Operator
  line : Nat
  operand : Expr

namespace Step

/-- How tightly the operator of the step binds. -/
def precedence (step : Step) : Nat := step.operator.precedence

/-- The operands joined by the operator of the step; only a target can be assigned to. -/
def joined? (step : Step) (left right : Expr) : Option Expr :=
  if step.operator = .assign then
    if left.isTarget then some (.assignment step.line left right) else none
  else some (.binary step.line step.operator left right)

theorem joined?_eq_binary {step : Step} (ordinary : step.operator.isRightAssociative = false)
    (left right : Expr) :
    step.joined? left right = some (.binary step.line step.operator left right) := by
  have notAssign : step.operator ≠ .assign := by
    intro same
    simp [same, Operator.isRightAssociative] at ordinary
  rw [joined?, if_neg notAssign]

theorem operator_eq_assign {step : Step}
    (least : step.precedence = Operator.assign.precedence) : step.operator = .assign := by
  unfold precedence at least
  cases found : step.operator <;> rw [found] at least <;> first | rfl | cases least

end Step

namespace Grouping

/-- The steps before the first operator of a precedence, and each operator of this precedence with
the steps of the segment that it starts. -/
def cut (precedence : Nat) : List Step → List Step × List (Step × List Step)
  | [] => ([], [])
  | step :: rest =>
    let segments := cut precedence rest
    if step.precedence = precedence then ([], (step, segments.1) :: segments.2)
    else (step :: segments.1, segments.2)

/-- The tree of operands joined by operators of one precedence.  In a chain of comparisons each
inner operand is compared with both of its neighbours. -/
def combine : Expr → List Step → Option Expr
  | first, [] => some first
  | first, step :: rest =>
    if step.operator.isRightAssociative then
      (combine step.operand rest).bind (step.joined? first)
    else if step.operator.isRelational ∧ rest ≠ [] then
      (combine step.operand rest).map
        (.binary step.line .and (.binary step.line step.operator first step.operand))
    else combine (.binary step.line step.operator first step.operand) rest

/-- The operators that start the segments, each with the tree of its segment as the operand. -/
def trees (tree : Expr → List Step → Option Expr) (segments : List (Step × List Step)) :
    Option (List Step) :=
  segments.mapM fun segment =>
    (tree segment.1.operand segment.2).map fun operand => { segment.1 with operand := operand }

/-- The tree of a first segment and of the segments that operators of one precedence start. -/
def joinSegments (tree : Expr → List Step → Option Expr) (first : Expr)
    (segments : List (Step × List Step)) : Option Expr :=
  (trees tree segments).bind (combine first)

/-- The tree of a flat expression, cut at each of the levels in turn. -/
def grouped : (levels : List Nat) → Expr → List Step → Option Expr
  | [], first, _ => some first
  | level :: tighter, first, steps =>
    (grouped tighter first (cut level steps).1).bind fun first =>
      joinSegments (grouped tighter) first (cut level steps).2

/-- The tree of a flat expression; nothing if something is assigned to that is no target. -/
@[irreducible] def reference (first : Expr) (steps : List Step) : Option Expr :=
  grouped Operator.levels first steps

private theorem combine_single (first : Expr) (step : Step) :
    combine first [step] = step.joined? first step.operand := by
  by_cases right : step.operator.isRightAssociative = true
  · simp [combine, right]
  · simp [combine, right, Step.joined?_eq_binary (Bool.eq_false_iff.mpr right)]

/-- The segments between the operators of a precedence, each with its first operand. -/
def segments (precedence : Nat) (first : Expr) (steps : List Step) : List (Expr × List Step) :=
  (first, (cut precedence steps).1) ::
    (cut precedence steps).2.map fun segment => (segment.1.operand, segment.2)

/-- The segments that something is assigned to: all but the last between the assignments. -/
def assigned (first : Expr) (steps : List Step) : List (Expr × List Step) :=
  (segments Operator.assign.precedence first steps).dropLast

variable {level : Nat} {before steps rest : List Step} {step : Step}
  {tree : Expr → List Step → Option Expr} {parts : List (Step × List Step)}

theorem cut_append (apart : ∀ step ∈ before, step.precedence ≠ level) (rest : List Step) :
    cut level (before ++ rest) = (before ++ (cut level rest).1, (cut level rest).2) := by
  induction before with
  | nil => rfl
  | cons step before ih =>
    have here := apart step List.mem_cons_self
    have below := ih fun other member =>
      apart other (List.mem_cons_of_mem _ member)
    simp only [List.cons_append, cut, below, if_neg here]

private theorem cut_of_apart (apart : ∀ step ∈ steps, step.precedence ≠ level) :
    cut level steps = (steps, []) := by
  have whole := cut_append apart []
  rwa [List.append_nil, cut, List.append_nil] at whole

theorem cut_cons (here : step.precedence = level) (rest : List Step) :
    cut level (step :: rest) = ([], (step, (cut level rest).1) :: (cut level rest).2) := by
  simp only [cut, if_pos here]

private theorem cut_fst_eq_takeWhile (level : Nat) (steps : List Step) :
    (cut level steps).1 = steps.takeWhile fun step => decide (step.precedence ≠ level) := by
  induction steps with
  | nil => rfl
  | cons step rest ih =>
    by_cases here : step.precedence = level
    · simp [cut, here]
    · simp [cut, here, ih]

theorem cut_fst_subset (member : step ∈ (cut level steps).1) :
    step ∈ steps ∧ step.precedence ≠ level := by
  rw [cut_fst_eq_takeWhile] at member
  refine ⟨(List.takeWhile_sublist _).subset member, ?_⟩
  have passes := List.all_eq_true.mp List.all_takeWhile step member
  simpa using passes

theorem cut_snd_subset {segment : Step × List Step} (member : segment ∈ (cut level steps).2) :
    segment.1 ∈ steps ∧ segment.1.precedence = level ∧
      ∀ step ∈ segment.2, step ∈ steps ∧ step.precedence ≠ level := by
  induction steps with
  | nil => cases member
  | cons first rest ih =>
    have later (below : segment ∈ (cut level rest).2) :
        segment.1 ∈ first :: rest ∧ segment.1.precedence = level ∧
          ∀ step ∈ segment.2, step ∈ first :: rest ∧ step.precedence ≠ level := by
      obtain ⟨starts, same, inside⟩ := ih below
      refine ⟨List.mem_cons_of_mem _ starts, same, fun step isInside => ?_⟩
      exact ⟨List.mem_cons_of_mem _ (inside step isInside).1, (inside step isInside).2⟩
    by_cases here : first.precedence = level
    · rw [cut_cons here] at member
      rcases List.mem_cons.mp member with rfl | below
      · refine ⟨List.mem_cons_self, here, fun step isInside => ?_⟩
        obtain ⟨isLater, apart⟩ := cut_fst_subset isInside
        exact ⟨List.mem_cons_of_mem _ isLater, apart⟩
      · exact later below
    · simp only [cut, if_neg here] at member
      exact later member

theorem head?_cut_fst (member : step ∈ (cut level steps).1.head?) : step ∈ steps.head? := by
  cases steps with
  | nil => cases member
  | cons first rest =>
    by_cases here : first.precedence = level
    · rw [cut_cons here] at member
      cases member
    · have split : cut level ([first] ++ rest) = _ := cut_append (by simpa using here) rest
      rw [List.singleton_append] at split
      rw [split] at member
      exact member

/-- The levels are listed from the loosest on, and every step has one of them. -/
structure Covers (levels : List Nat) (steps : List Step) : Prop where
  sorted : levels.Pairwise (· < ·)
  level : ∀ step ∈ steps, step.precedence ∈ levels

theorem covers_levels (steps : List Step) : Covers Operator.levels steps :=
  ⟨Operator.levels_sorted, fun step _ => step.operator.precedence_mem_levels⟩

namespace Covers

variable {level : Nat} {tighter levels : List Nat} {steps : List Step}

theorem subset (covers : Covers levels steps) {part : List Step} (inside : part ⊆ steps) :
    Covers levels part :=
  ⟨covers.sorted, fun step member => covers.level step (inside member)⟩

theorem tail (covers : Covers (level :: tighter) steps)
    (apart : ∀ step ∈ steps, step.precedence ≠ level) : Covers tighter steps :=
  ⟨covers.sorted.of_cons, fun step member =>
    (List.mem_cons.mp (covers.level step member)).resolve_left (apart step member)⟩

theorem level_le (covers : Covers (level :: tighter) steps) {step : Step} (member : step ∈ steps) :
    level ≤ step.precedence := by
  rcases List.mem_cons.mp (covers.level step member) with same | below
  · exact Nat.le_of_eq same.symm
  · exact Nat.le_of_lt (List.rel_of_pairwise_cons covers.sorted below)

/-- The tighter levels cover the segment before the first cut. -/
theorem segment {before rest : List Step} (covers : Covers (level :: tighter) (before ++ rest))
    (apart : ∀ step ∈ before, step.precedence ≠ level) :
    Covers tighter (before ++ (cut level rest).1) := by
  have inside : before ++ (cut level rest).1 ⊆ before ++ rest := by
    intro step member
    rcases List.mem_append.mp member with old | new
    · exact List.mem_append_left _ old
    · exact List.mem_append_right _ (cut_fst_subset new).1
  apply (covers.subset inside).tail
  intro step member
  rcases List.mem_append.mp member with old | new
  · exact apart step old
  · exact (cut_fst_subset new).2

end Covers

variable {level : Nat} {tighter levels : List Nat} {first : Expr}

theorem trees_cons (tree : Expr → List Step → Option Expr) (segment : Step × List Step)
    (later : List (Step × List Step)) : trees tree (segment :: later) =
      (tree segment.1.operand segment.2).bind fun operand =>
        (trees tree later).map ({ segment.1 with operand := operand } :: ·) := by
  rw [trees, List.mapM_cons]
  cases tree segment.1.operand segment.2 with
  | none => rfl
  | some operand =>
    change (trees tree later).bind _ = (trees tree later).map _
    cases trees tree later <;> rfl

private theorem trees_eq_nil_iff {later : List Step} (built : trees tree parts = some later) :
    later = [] ↔ parts = [] := by
  cases parts with
  | nil =>
    cases built
    simp
  | cons part parts =>
    rw [trees_cons] at built
    obtain ⟨operand, _, rest⟩ := Option.bind_eq_some_iff.mp built
    obtain ⟨others, _, rfl⟩ := Option.map_eq_some_iff.mp rest
    simp

private theorem joinSegments_congr {other : Expr → List Step → Option Expr} {first : Expr}
    (same : ∀ part ∈ parts, tree part.1.operand part.2 = other part.1.operand part.2) :
    joinSegments tree first parts = joinSegments other first parts := by
  have built : trees tree parts = trees other parts := by
    induction parts with
    | nil => rfl
    | cons part parts ih =>
      rw [trees_cons, trees_cons, same part List.mem_cons_self,
        ih fun other member => same other (List.mem_cons_of_mem _ member)]
  rw [joinSegments, built, joinSegments]

theorem joinSegments_cons (tree : Expr → List Step → Option Expr) (first : Expr)
    (part : Step × List Step) (parts : List (Step × List Step)) :
    joinSegments tree first (part :: parts) = (tree part.1.operand part.2).bind fun operand =>
        (trees tree parts).bind fun later =>
          combine first ({ part.1 with operand := operand } :: later) := by
  rw [joinSegments, trees_cons]
  cases tree part.1.operand part.2 with
  | none => rfl
  | some operand => cases trees tree parts <;> rfl

theorem grouped_nil (levels : List Nat) (first : Expr) : grouped levels first [] = some first := by
  induction levels with
  | nil => rfl
  | cons level tighter ih =>
    rw [grouped, cut, ih]
    rfl

/-- Steps of tighter levels group as if the level were not there. -/
theorem grouped_of_apart (apart : ∀ step ∈ steps, step.precedence ≠ level) :
    grouped (level :: tighter) first steps = grouped tighter first steps := by
  rw [grouped, cut_of_apart apart]
  cases grouped tighter first steps <;> rfl

/-- What holds of the segment before the first cut holds of the whole flat expression. -/
theorem grouped_lift {tree : Option Expr} (apart : ∀ step ∈ before, step.precedence ≠ level)
    (below : grouped tighter first (before ++ (cut level rest).1) =
      tree.bind fun joined => grouped tighter joined (cut level rest).1) :
    grouped (level :: tighter) first (before ++ rest) =
      tree.bind fun joined => grouped (level :: tighter) joined rest := by
  rw [grouped, cut_append apart]
  simp only [below, Option.bind_assoc]
  rfl

/-- Steps that bind tighter than the next operator group on their own. -/
theorem grouped_append (covers : Covers levels (before ++ rest))
    (tightly : ∀ step ∈ before, ∀ next ∈ rest.head?, next.precedence < step.precedence) :
    grouped levels first (before ++ rest) =
      (grouped levels first before).bind fun joined => grouped levels joined rest := by
  induction levels generalizing rest with
  | nil => rfl
  | cons level tighter ih =>
    cases rest with
    | nil =>
      simp only [List.append_nil, grouped_nil]
      cases grouped (level :: tighter) first before <;> rfl
    | cons next later =>
      have lowest : level ≤ next.precedence := covers.level_le (by simp)
      have apart : ∀ step ∈ before, step.precedence ≠ level := by
        intro step member same
        have above := tightly step member next rfl
        omega
      rw [grouped_of_apart apart]
      apply grouped_lift apart
      apply ih (covers.segment apart)
      intro step member following isHead
      exact tightly step member following (head?_cut_fst isHead)

/-- Nothing stands before the first cut of steps that start at the level. -/
theorem cut_fst_eq_nil (covers : Covers (level :: tighter) rest)
    (loosely : ∀ next ∈ rest.head?, next.precedence ≤ level) : (cut level rest).1 = [] := by
  cases rest with
  | nil => rfl
  | cons next later =>
    have least := covers.level_le (List.mem_cons_self : next ∈ next :: later)
    have most := loosely next rfl
    rw [cut_cons (Nat.le_antisymm most least)]

/-- The right operand of a step takes the tighter steps behind it. -/
theorem grouped_cons {tight : List Step} (covers : Covers levels (step :: tight ++ rest))
    (tightly : ∀ other ∈ tight, step.precedence < other.precedence)
    (loosely : ∀ next ∈ rest.head?, next.precedence ≤ step.precedence) :
    grouped levels first (step :: tight ++ rest) =
      (grouped levels step.operand tight).bind fun operand =>
        grouped levels first ({ step with operand := operand } :: rest) := by
  induction levels generalizing rest with
  | nil => rfl
  | cons level tighter ih =>
    have least : level ≤ step.precedence := covers.level_le (by simp)
    have tightApart : ∀ other ∈ tight, other.precedence ≠ level := by
      intro other member same
      have above := tightly other member
      omega
    rw [grouped_of_apart tightApart]
    by_cases here : step.precedence = level
    · have restCovers : Covers (level :: tighter) rest :=
        covers.subset fun other member => List.mem_append_right _ member
      have nothing := cut_fst_eq_nil restCovers (here ▸ loosely)
      rw [grouped, List.cons_append, cut_cons here, cut_append tightApart, nothing,
        List.append_nil]
      have continued : ∀ operand, grouped (level :: tighter) first
          ({ step with operand := operand } :: rest) =
            joinSegments (grouped tighter) first
              (({ step with operand := operand }, []) :: (cut level rest).2) := by
        intro operand
        have same : ({ step with operand := operand } : Step).precedence = level := here
        rw [grouped, cut_cons same, nothing, grouped_nil]
        rfl
      simp only [continued, joinSegments_cons, grouped_nil, Option.bind_some]
    · have apart : ∀ other ∈ step :: tight, other.precedence ≠ level := by
        intro other member
        rcases List.mem_cons.mp member with rfl | below
        · exact here
        · exact tightApart other below
      have below := ih (covers.segment apart) fun next isHead =>
        loosely next (head?_cut_fst isHead)
      have continued : ∀ operand, grouped (level :: tighter) first
          ({ step with operand := operand } :: rest) =
            (grouped tighter first ({ step with operand := operand } :: (cut level rest).1)).bind
              fun joined => joinSegments (grouped tighter) joined (cut level rest).2 := by
        intro operand
        have alone : ∀ other ∈ [({ step with operand := operand } : Step)],
            other.precedence ≠ level :=
          List.forall_mem_singleton.mpr here
        have split := cut_append alone rest
        rw [List.singleton_append] at split
        rw [grouped, split, List.singleton_append]
      rw [grouped, cut_append apart]
      simp only [below, continued, Option.bind_assoc]

section

variable (covers : Covers levels (step :: rest))

include covers

/-- An operator whose right operand is complete joins it to what stands on its left, where no chain
of its precedence starts. -/
theorem grouped_step (loosely : ∀ next ∈ rest.head?, next.precedence < step.precedence ∨
      next.precedence = step.precedence ∧ step.operator.isRightAssociative = false ∧
        step.operator.isRelational = false) : grouped levels first (step :: rest) =
      (step.joined? first step.operand).bind fun joined => grouped levels joined rest := by
  induction levels generalizing rest with
  | nil => cases covers.level step List.mem_cons_self
  | cons level tighter ih =>
    by_cases here : step.precedence = level
    · have restCovers : Covers (level :: tighter) rest :=
        covers.subset fun other member => List.mem_cons_of_mem _ member
      have nothing : (cut level rest).1 = [] := by
        apply cut_fst_eq_nil restCovers
        intro next isHead
        have bound := loosely next isHead
        omega
      have continued : ∀ joined, grouped (level :: tighter) joined rest =
          joinSegments (grouped tighter) joined (cut level rest).2 := by
        intro joined
        rw [grouped, nothing, grouped_nil]
        rfl
      simp only [continued]
      rw [grouped, cut_cons here, nothing, grouped_nil, Option.bind_some, joinSegments_cons,
        grouped_nil, Option.bind_some]
      cases rest with
      | nil =>
        change combine first [step] = (step.joined? first step.operand).bind some
        simp [combine_single]
      | cons next later =>
        have least := restCovers.level_le (List.mem_cons_self : next ∈ next :: later)
        rcases loosely next rfl with looser | ⟨_, ordinary, single⟩
        · omega
        · simp [combine, ordinary, single, Step.joined?_eq_binary ordinary, joinSegments]
    · have alone : ∀ other ∈ [step], other.precedence ≠ level :=
        List.forall_mem_singleton.mpr here
      apply grouped_lift alone
      apply ih (covers.segment alone)
      intro next isHead
      exact loosely next (head?_cut_fst isHead)

/-- The steps that bind at least as tightly as the first of them, which starts a chain with them. -/
structure Chain (step : Step) (rest : List Step) : Prop where
  starts : ∀ next ∈ rest.head?, next.precedence = step.precedence
  tightly : ∀ other ∈ rest, step.precedence ≤ other.precedence

/-- A chain is cut at the precedence of its first operator. -/
theorem Chain.grouped_eq (chain : Chain step rest)
    (first : Expr) : ∃ parts, (parts = [] ↔ rest = []) ∧ ∃ tree,
      (∀ joined, grouped levels joined rest = (trees tree parts).bind (combine joined)) ∧
        grouped levels first (step :: rest) =
          (trees tree parts).bind fun later => combine first (step :: later) := by
  induction levels with
  | nil => cases covers.level step List.mem_cons_self
  | cons level tighter ih =>
    have least : level ≤ step.precedence := covers.level_le List.mem_cons_self
    by_cases here : step.precedence = level
    · have restCovers : Covers (level :: tighter) rest :=
        covers.subset fun other member => List.mem_cons_of_mem _ member
      have nothing : (cut level rest).1 = [] := by
        apply cut_fst_eq_nil restCovers
        intro next isHead
        exact Nat.le_of_eq (here ▸ chain.starts next isHead)
      refine ⟨(cut level rest).2, ?_, grouped tighter, ?_, ?_⟩
      · cases rest with
        | nil => simp [cut]
        | cons next later => simp [cut_cons (here ▸ chain.starts next rfl)]
      · intro joined
        rw [grouped, nothing, grouped_nil]
        rfl
      · rw [grouped, cut_cons here, nothing, grouped_nil, Option.bind_some, joinSegments_cons,
          grouped_nil, Option.bind_some]
    · have apart : ∀ other ∈ step :: rest, other.precedence ≠ level := by
        intro other member same
        rcases List.mem_cons.mp member with rfl | inside
        · exact here same
        · have above := chain.tightly other inside
          omega
      have below := ih (covers.tail apart)
      rw [grouped_of_apart apart]
      have restApart : ∀ other ∈ rest, other.precedence ≠ level :=
        fun other member => apart other (List.mem_cons_of_mem _ member)
      simpa only [grouped_of_apart restApart] using below

theorem grouped_right (chain : Chain step rest)
    (right : step.operator.isRightAssociative = true) : grouped levels first (step :: rest) =
      (grouped levels step.operand rest).bind (step.joined? first) := by
  obtain ⟨parts, _, tree, rest_eq, whole⟩ := chain.grouped_eq covers first
  rw [whole, rest_eq]
  simp [combine, right, Option.bind_assoc]

theorem grouped_relational (chain : Chain step rest)
    (more : rest ≠ []) (relational : step.operator.isRelational = true) :
    grouped levels first (step :: rest) = (grouped levels step.operand rest).map
        (.binary step.line .and (.binary step.line step.operator first step.operand)) := by
  obtain ⟨parts, empty, tree, rest_eq, whole⟩ := chain.grouped_eq covers first
  rw [whole, rest_eq]
  cases built : trees tree parts with
  | none => rfl
  | some later =>
    have notLast : later ≠ [] := by
      rw [Ne, trees_eq_nil_iff built, empty]
      exact more
    have left : step.operator.isRightAssociative = false := by
      cases found : step.operator <;> rw [found] at relational <;> first | rfl | cases relational
    simp [combine, left, relational, notLast]

end

theorem combine_isSome {first : Expr} (plain : ∀ step ∈ steps, step.operator ≠ .assign) :
    (combine first steps).isSome = true := by
  fun_induction combine first steps with
  | case1 => rfl
  | case2 first step rest _ ih =>
    have later := ih fun other member => plain other (List.mem_cons_of_mem _ member)
    obtain ⟨tree, built⟩ := Option.isSome_iff_exists.mp later
    simp [built, Step.joined?, plain step List.mem_cons_self]
  | case3 first step rest _ _ ih =>
    have later := ih fun other member => plain other (List.mem_cons_of_mem _ member)
    simpa using later
  | case4 first step rest _ _ ih =>
    exact ih fun other member => plain other (List.mem_cons_of_mem _ member)

theorem exists_trees (built : ∀ part ∈ parts, (tree part.1.operand part.2).isSome = true) :
    ∃ later, trees tree parts = some later ∧
      ∀ step ∈ later, ∃ part ∈ parts, step.operator = part.1.operator := by
  induction parts with
  | nil => exact ⟨[], rfl, nofun⟩
  | cons part parts ih =>
    obtain ⟨operand, first⟩ := Option.isSome_iff_exists.mp (built part List.mem_cons_self)
    obtain ⟨later, rest, named⟩ := ih fun other member =>
      built other (List.mem_cons_of_mem _ member)
    refine ⟨{ part.1 with operand := operand } :: later, by simp [trees_cons, first, rest], ?_⟩
    intro step member
    rcases List.mem_cons.mp member with rfl | inside
    · exact ⟨part, List.mem_cons_self, rfl⟩
    · obtain ⟨other, isOther, same⟩ := named step inside
      exact ⟨other, List.mem_cons_of_mem _ isOther, same⟩

/-- Without an assignment every flat expression has a tree. -/
theorem grouped_isSome (plain : ∀ step ∈ steps, step.operator ≠ .assign) :
    (grouped levels first steps).isSome = true := by
  induction levels generalizing first steps with
  | nil => rfl
  | cons level tighter ih =>
    have start : (grouped tighter first (cut level steps).1).isSome = true :=
      ih fun step member => plain step (cut_fst_subset member).1
    obtain ⟨joined, starts⟩ := Option.isSome_iff_exists.mp start
    have parts : ∀ part ∈ (cut level steps).2,
        (grouped tighter part.1.operand part.2).isSome = true := fun part member =>
      ih fun step inside =>
        plain step ((cut_snd_subset member).2.2 step inside).1
    obtain ⟨later, built, named⟩ := exists_trees parts
    rw [grouped, starts, Option.bind_some, joinSegments, built, Option.bind_some]
    apply combine_isSome
    intro step member
    obtain ⟨part, isPart, same⟩ := named step member
    rw [same]
    exact plain part.1 (cut_snd_subset isPart).1

/-- A level that no segment has may be left out. -/
theorem joinSegments_of_apart {loosest : Nat}
    (apart : ∀ step ∈ steps, step.precedence ≠ level → step.precedence ≠ loosest) :
    ((grouped (loosest :: tighter) first (cut level steps).1).bind fun joined =>
        joinSegments (grouped (loosest :: tighter)) joined (cut level steps).2) =
      (grouped tighter first (cut level steps).1).bind fun joined =>
        joinSegments (grouped tighter) joined (cut level steps).2 := by
  have between : ∀ joined,
      joinSegments (grouped (loosest :: tighter)) joined (cut level steps).2 =
        joinSegments (grouped tighter) joined (cut level steps).2 := by
    intro joined
    apply joinSegments_congr
    intro part member
    apply grouped_of_apart
    intro step inside
    obtain ⟨isStep, notCut⟩ := (cut_snd_subset member).2.2 step inside
    exact apart step isStep notCut
  simp only [between]
  rw [grouped_of_apart fun step member =>
    apart step (cut_fst_subset member).1 (cut_fst_subset member).2]

/-- A flat expression is cut at the loosest of its operators. -/
theorem grouped_cut (covers : Covers levels steps)
    (least : ∀ step ∈ steps, level ≤ step.precedence) (present : level ∈ levels) :
    grouped levels first steps = (grouped levels first (cut level steps).1).bind fun joined =>
        joinSegments (grouped levels) joined (cut level steps).2 := by
  induction levels with
  | nil => cases present
  | cons loosest tighter ih =>
    by_cases here : loosest = level
    · subst here
      rw [joinSegments_of_apart fun _ _ apart => apart]
      rfl
    · have deeper : level ∈ tighter := (List.mem_cons.mp present).resolve_left (Ne.symm here)
      have below : loosest < level := List.rel_of_pairwise_cons covers.sorted deeper
      have apart : ∀ step ∈ steps, step.precedence ≠ loosest := by
        intro step member same
        have above := least step member
        omega
      rw [joinSegments_of_apart fun step member _ => apart step member, grouped_of_apart apart]
      exact ih (covers.tail apart) deeper

/-- The assignments of segments fail at the first tree that is no target. -/
theorem joinSegments_eq_none_iff (assignments : ∀ part ∈ parts, part.1.operator = .assign)
    (built : ∀ part ∈ parts, (tree part.1.operand part.2).isSome = true) :
    joinSegments tree first parts = none ↔
      ∃ left ∈ (some first :: parts.map fun part => tree part.1.operand part.2).dropLast,
        ∃ target, left = some target ∧ target.isTarget = false := by
  induction parts generalizing first with
  | nil => simp [joinSegments, trees, combine]
  | cons part parts ih =>
    obtain ⟨operand, isTree⟩ := Option.isSome_iff_exists.mp (built part List.mem_cons_self)
    have assigns := assignments part List.mem_cons_self
    have below : joinSegments tree operand parts = none ↔ _ := ih
      (fun other member => assignments other (List.mem_cons_of_mem _ member))
      (fun other member => built other (List.mem_cons_of_mem _ member))
    have whole : joinSegments tree first (part :: parts) =
        (joinSegments tree operand parts).bind
          (({ part.1 with operand := operand } : Step).joined? first) := by
      rw [joinSegments_cons, isTree, Option.bind_some, joinSegments, Option.bind_assoc]
      simp only [combine, assigns, Operator.isRightAssociative, if_true]
    rw [List.map_cons, isTree, List.dropLast_cons_cons, whole]
    simp only [List.mem_cons, or_and_right, exists_or, exists_eq_left, ← below]
    cases joinSegments tree operand parts <;> simp [Step.joined?, assigns]

/-- The tree of a flat expression is that of its segments at the loosest operators. -/
theorem reference_cut (least : ∀ step ∈ steps, level ≤ step.precedence)
    (present : level ∈ Operator.levels) : reference first steps =
      (reference first (cut level steps).1).bind fun joined =>
        joinSegments reference joined (cut level steps).2 := by
  unfold reference
  exact grouped_cut (covers_levels steps) least present

private theorem reference_isSome (plain : ∀ step ∈ steps, step.operator ≠ .assign) :
    (reference first steps).isSome = true := by
  unfold reference
  exact grouped_isSome plain

/-- There is no tree exactly if something is assigned to that is no target. -/
theorem reference_eq_none_iff : reference first steps = none ↔ ∃ segment ∈ assigned first steps,
      ∃ left, reference segment.1 segment.2 = some left ∧ left.isTarget = false := by
  have plain : ∀ step : Step, step.precedence ≠ Operator.assign.precedence →
      step.operator ≠ .assign := by
    intro step apart same
    exact apart (congrArg Operator.precedence same)
  have least : ∀ step ∈ steps, Operator.assign.precedence ≤ step.precedence :=
    fun step _ => step.operator.assign_precedence_le
  have start : (reference first (cut Operator.assign.precedence steps).1).isSome = true :=
    reference_isSome fun step member => plain step (cut_fst_subset member).2
  obtain ⟨joined, starts⟩ := Option.isSome_iff_exists.mp start
  have parts : ∀ part ∈ (cut Operator.assign.precedence steps).2,
      (reference part.1.operand part.2).isSome = true := fun part member =>
    reference_isSome fun step inside => plain step ((cut_snd_subset member).2.2 step inside).2
  have assignments : ∀ part ∈ (cut Operator.assign.precedence steps).2,
      part.1.operator = .assign := fun part member =>
    Step.operator_eq_assign (cut_snd_subset member).2.1
  have whole : reference first steps = joinSegments reference joined
      (cut Operator.assign.precedence steps).2 := by
    rw [reference_cut least (Operator.precedence_mem_levels .assign), starts, Option.bind_some]
  have trees_eq : some joined :: (cut Operator.assign.precedence steps).2.map
      (fun part => reference part.1.operand part.2) =
        (segments Operator.assign.precedence first steps).map fun segment =>
          reference segment.1 segment.2 := by
    simp only [segments, List.map_cons, starts, List.map_map, Function.comp_def]
  rw [whole, joinSegments_eq_none_iff assignments parts, trees_eq, ← List.map_dropLast]
  simp only [List.mem_map, assigned]
  constructor
  · rintro ⟨_, ⟨segment, member, rfl⟩, left, isTree, notTarget⟩
    exact ⟨segment, member, left, isTree, notTarget⟩
  · rintro ⟨segment, member, left, isTree, notTarget⟩
    exact ⟨_, ⟨segment, member, rfl⟩, left, isTree, notTarget⟩

end Grouping

end Source

end Kronk
