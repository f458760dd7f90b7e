import Kronk.Proofs.Straight

/-!
# Building structured code

How blocks are added, ended and entered, and what that makes of the code that the current function
holds.  `Builds` says that a draft went from one point to another by structured code; nothing else
of the blocks there were has changed.
-/

namespace Kronk.IR

namespace Block

section Positions

variable {blocks : List Block}

variable {position : Nat} {change : Block → Block}

theorem getElem?_modify_self {block : Block} (found : blocks[position]? = some block) :
    (blocks.modify position change)[position]? = some (change block) := by
  rw [List.getElem?_modify_eq, found]
  rfl

theorem getElem?_modify_other {index : Nat} (other : index ≠ position) :
    (blocks.modify position change)[index]? = blocks[index]? := by
  rw [List.getElem?_modify]
  simp [Ne.symm other]

private theorem position?_modify (relabels : ∀ block, (change block).label = block.label)
    (label : String) :
    position? (blocks.modify position change) label = position? blocks label := by
  unfold position?
  induction blocks generalizing position with
  | nil => simp
  | cons first rest ih =>
    cases position with
    | zero => simp [List.findIdx?_cons, relabels]
    | succ position => simp [List.findIdx?_cons, ih]

theorem mem_modify_cases {block : Block} (member : block ∈ blocks.modify position change) :
    block ∈ blocks ∨ ∃ old ∈ blocks, block = change old := by
  obtain ⟨index, found⟩ := List.mem_iff_getElem?.mp member
  by_cases here : index = position
  · subst here
    rw [List.getElem?_modify_eq] at found
    obtain ⟨old, foundOld, rfl⟩ := Option.map_eq_some_iff.mp found
    exact .inr ⟨old, List.mem_of_getElem? foundOld, rfl⟩
  · rw [getElem?_modify_other here] at found
    exact .inl (List.mem_of_getElem? found)

theorem mem_modify {block : Block} (relabels : ∀ block, (change block).label = block.label)
    (member : block ∈ blocks.modify position change) :
    ∃ other ∈ blocks, other.label = block.label := by
  rcases mem_modify_cases member with same | ⟨old, isOld, rfl⟩
  · exact ⟨block, same, rfl⟩
  · exact ⟨old, isOld, (relabels old).symm⟩

theorem position?_append_new {label : String} (new : ∀ block ∈ blocks, block.label ≠ label) :
    position? (blocks ++ [{ label := label }]) label = some blocks.length := by
  unfold position?
  rw [List.findIdx?_append, List.findIdx?_eq_none_iff.mpr (by simpa using new)]
  simp [List.findIdx?_cons]

end Positions

namespace Extends

variable {blocks : List Block}

/-- A block without terminator is changed in a way that keeps its label and its code. -/
theorem modify {position : Nat} {change : Block → Block}
    (isOpen : ∀ block, blocks[position]? = some block → block.terminator = none)
    (relabels : ∀ block, (change block).label = block.label)
    (grows : ∀ block, block.instructions <+: (change block).instructions) :
    Extends blocks (blocks.modify position change) where
  instructions index block found := by
    by_cases here : index = position
    · subst here
      refine ⟨_, getElem?_modify_self found, grows block, fun ended => ?_⟩
      rw [isOpen block found] at ended
      cases ended
    · exact ⟨block, by rw [getElem?_modify_other here, found], List.prefix_refl _, fun _ => rfl⟩
  labels label index found := by
    rw [position?_modify relabels]
    exact found

theorem append (added : List Block) : Extends blocks (blocks ++ added) where
  instructions index block found := by
    refine ⟨block, ?_, List.prefix_refl _, fun _ => rfl⟩
    rw [List.getElem?_append_left (List.getElem?_eq_some_iff.mp found).1, found]
  labels label index found := by
    unfold position? at found ⊢
    rw [List.findIdx?_append, found]
    rfl

theorem length_le {grown : List Block} (extended : Extends blocks grown) :
    blocks.length ≤ grown.length := by
  refine Nat.le_of_not_lt fun shorter => ?_
  have found := List.getElem?_eq_getElem shorter
  obtain ⟨other, foundOther, _⟩ := extended.instructions _ _ found
  exact absurd (List.getElem?_eq_some_iff.mp foundOther).1 (Nat.lt_irrefl _)

end Extends

end Block

end Kronk.IR

namespace Kronk.Lowering

open IR (Block Code)

/-- No block has the label of the exit or a label that can still be made fresh. -/
structure Labelled (exit : String) (draft : Draft) : Prop where
  valid : draft.Valid
  unused : ∀ base ∈ labelBases, ∀ number, draft.count base ≤ number →
    ∀ block ∈ draft.blocks, block.label ≠ numbered base number
  exitUnused : ∀ block ∈ draft.blocks, block.label ≠ exit
  exitPlain : ∀ base ∈ labelBases, ∀ number, numbered base number ≠ exit

/-- The current block has no terminator. -/
def Draft.IsOpen (draft : Draft) : Prop :=
  ∃ block, draft.blocks[draft.place.block]? = some block ∧ block.terminator = none

/-- A draft has changed since another one in the current block and in new blocks only. -/
structure Since (exit : String) (before after : Draft) : Prop where
  labelled : Labelled exit after
  function : after.place.function = before.place.function
  extended : Block.Extends before.blocks after.blocks
  kept : ∀ index, index < before.blocks.length → index ≠ before.place.block →
    after.blocks[index]? = before.blocks[index]?
  placed : after.place.block = before.place.block ∨ before.blocks.length ≤ after.place.block
  temporaries : before.temporaries ≤ after.temporaries
  labels : ∀ base, before.count base ≤ after.count base

/-- Labels are still in order where no block has a new one. -/
theorem Labelled.of_same {exit : String} {before after : Draft} (labelled : Labelled exit before)
    (valid : after.Valid) (counts : ∀ base, before.count base ≤ after.count base)
    (same : ∀ block ∈ after.blocks, ∃ other ∈ before.blocks, other.label = block.label) :
    Labelled exit after where
  valid := valid
  unused base isBase number unused block member := by
    obtain ⟨other, inside, label⟩ := same block member
    rw [← label]
    exact labelled.unused base isBase number (Nat.le_trans (counts base) unused) other inside
  exitUnused block member := by
    obtain ⟨other, inside, label⟩ := same block member
    rw [← label]
    exact labelled.exitUnused other inside
  exitPlain := labelled.exitPlain

namespace Since

variable {exit : String} {before draft : Draft}

theorem refl (labelled : Labelled exit before) : Since exit before before where
  labelled := labelled
  function := rfl
  extended := .refl
  kept _ _ _ := rfl
  placed := .inl rfl
  temporaries := Nat.le_refl _
  labels _ := Nat.le_refl _

theorem trans {after : Draft} (former : Since exit before draft) (latter : Since exit draft after) :
    Since exit before after where
  labelled := latter.labelled
  function := latter.function.trans former.function
  extended := former.extended.trans latter.extended
  kept index inside other := by
    have larger := former.extended.length_le
    rw [latter.kept index (by omega) ?_, former.kept index inside other]
    rcases former.placed with same | new
    · rw [same]
      exact other
    · omega
  placed := by
    have larger := former.extended.length_le
    rcases latter.placed with same | new
    · rw [same]
      exact former.placed
    · exact .inr (by omega)
  temporaries := Nat.le_trans former.temporaries latter.temporaries
  labels base := Nat.le_trans (former.labels base) (latter.labels base)

/-- The current block is changed while it has no terminator. -/
theorem change (labelled : Labelled exit before) (isOpen : before.IsOpen) {change : Block → Block}
    (relabels : ∀ block, (change block).label = block.label)
    (grows : ∀ block, block.instructions <+: (change block).instructions) :
    Since exit before (before.noted.mapBlocks (·.modify before.place.block change)) where
  labelled := by
    refine labelled.of_same labelled.valid.noted.mapBlocks (fun _ => Nat.le_refl _) ?_
    rw [labelled.valid.noted.blocks_mapBlocks]
    exact fun block member => Block.mem_modify relabels member
  function := rfl
  extended := by
    rw [labelled.valid.noted.blocks_mapBlocks]
    refine .modify (fun block found => ?_) relabels grows
    obtain ⟨other, foundOther, ended⟩ := isOpen
    rw [found, Option.some.injEq] at foundOther
    rw [foundOther, ended]
  kept index _ other := by
    rw [labelled.valid.noted.blocks_mapBlocks, Block.getElem?_modify_other other]
    rfl
  placed := .inl rfl
  temporaries := Nat.le_refl _
  labels _ := Nat.le_refl _

theorem enter (since : Since exit before draft) {block : Nat} (new : before.blocks.length ≤ block) :
    Since exit before { draft with place := ⟨draft.place.function, block⟩ } where
  labelled := ⟨since.labelled.valid, since.labelled.unused, since.labelled.exitUnused,
    since.labelled.exitPlain⟩
  function := since.function
  extended := since.extended
  kept := since.kept
  placed := .inr new
  temporaries := since.temporaries
  labels := since.labels

end Since

/-! ## New blocks -/

/-- The draft after a fresh label with a base was made and a block was added under it. -/
def Draft.withBlock (draft : Draft) (base : String) : Draft :=
  Draft.mapBlocks { draft with labels := draft.labels.insert base (draft.count base + 1) }
    (· ++ [{ label := numbered base (draft.count base) }])

theorem freshBlock_eq (base : String) (draft : Draft) : Emit.freshBlock base draft =
      ((numbered base (draft.count base), draft.blocks.length), draft.withBlock base) := by
  have added := Emit.newBlock_eq
    { draft with labels := draft.labels.insert base (draft.count base + 1) }
    (numbered base (draft.count base))
  exact congrArg (fun (result : Nat × Draft) =>
    ((numbered base (draft.count base), result.1), result.2)) added

section WithBlock

variable {exit : String} {draft : Draft} {base : String}

theorem Draft.Valid.blocks_withBlock (valid : draft.Valid) : (draft.withBlock base).blocks =
      draft.blocks ++ [{ label := numbered base (draft.count base) }] :=
  Draft.Valid.blocks_mapBlocks valid

@[simp] theorem Draft.place_withBlock : (draft.withBlock base).place = draft.place := rfl

theorem Draft.count_withBlock (other : String) : (draft.withBlock base).count other =
      if other = base then draft.count base + 1 else draft.count other := by
  change ((draft.labels.insert base (draft.count base + 1)).get? other).getD 0 = _
  rw [Table.get?_insert]
  split
  · rfl
  · rfl

theorem Labelled.fresh (labelled : Labelled exit draft) (isBase : base ∈ labelBases) :
    ∀ block ∈ draft.blocks, block.label ≠ numbered base (draft.count base) :=
  labelled.unused base isBase _ (Nat.le_refl _)

theorem Labelled.withBlock (labelled : Labelled exit draft) (isBase : base ∈ labelBases) :
    Labelled exit (draft.withBlock base) where
  valid := Draft.Valid.mapBlocks labelled.valid
  unused other isOther number unused block member := by
    rw [labelled.valid.blocks_withBlock, List.mem_append, List.mem_singleton] at member
    rw [Draft.count_withBlock] at unused
    rcases member with inside | rfl
    · refine labelled.unused other isOther number ?_ block inside
      split at unused
      · subst other
        omega
      · exact unused
    · intro same
      obtain ⟨rfl, rfl⟩ := numbered_injective (labelBases_plain _ isBase)
        (labelBases_plain _ isOther) same
      rw [if_pos rfl] at unused
      omega
  exitUnused block member := by
    rw [labelled.valid.blocks_withBlock, List.mem_append, List.mem_singleton] at member
    rcases member with inside | rfl
    · exact labelled.exitUnused block inside
    · exact labelled.exitPlain base isBase _
  exitPlain := labelled.exitPlain

theorem Since.withBlock (labelled : Labelled exit draft) (isBase : base ∈ labelBases) :
    Since exit draft (draft.withBlock base) where
  labelled := labelled.withBlock isBase
  function := rfl
  extended := by
    rw [labelled.valid.blocks_withBlock]
    exact .append _
  kept index inside _ := by
    rw [labelled.valid.blocks_withBlock, List.getElem?_append_left inside]
  placed := .inl rfl
  temporaries := Nat.le_refl _
  labels other := by
    rw [Draft.count_withBlock]
    split
    · subst other
      exact Nat.le_succ _
    · exact Nat.le_refl _

theorem Labelled.position?_withBlock (labelled : Labelled exit draft) (isBase : base ∈ labelBases) :
    Block.position? (draft.withBlock base).blocks (numbered base (draft.count base)) =
      some draft.blocks.length := by
  rw [labelled.valid.blocks_withBlock]
  exact Block.position?_append_new (labelled.fresh isBase)

theorem Draft.IsOpen.withBlock (isOpen : draft.IsOpen) (valid : draft.Valid) :
    (draft.withBlock base).IsOpen := by
  obtain ⟨block, found, ended⟩ := isOpen
  refine ⟨block, ?_, ended⟩
  rw [valid.blocks_withBlock, Draft.place_withBlock,
    List.getElem?_append_left (List.getElem?_eq_some_iff.mp found).1, found]

end WithBlock

end Kronk.Lowering

namespace Kronk.IR

namespace Code

def instructions : Code → List Instruction
  | straight code => code
  | seq first second => first.instructions ++ second.instructions
  | leave => []
  | branch _ consequent alternative => consequent.instructions ++ alternative.instructions
  | skip _ body => body.instructions
  | loop test _ body => test ++ body.instructions

/-- The conditions that structured code branches on. -/
def conditions : Code → List Value
  | straight _ => []
  | seq first second => first.conditions ++ second.conditions
  | leave => []
  | branch condition consequent alternative =>
    condition :: (consequent.conditions ++ alternative.conditions)
  | skip condition body => condition :: body.conditions
  | loop _ condition body => condition :: body.conditions

/-- The exit, for every place at which structured code leaves the function. -/
def exits (exit : String) : Code → List String
  | straight _ => []
  | seq first second => first.exits exit ++ second.exits exit
  | leave => [exit]
  | branch _ consequent alternative => consequent.exits exit ++ alternative.exits exit
  | skip _ body => body.exits exit
  | loop _ _ body => body.exits exit

theorem eq_of_mem_exits {exit label : String} {code : Code} (member : label ∈ code.exits exit) :
    label = exit := by
  induction code with
  | straight _ => cases member
  | seq _ _ first second =>
    rcases List.mem_append.mp member with member | member
    · exact first member
    · exact second member
  | leave => exact List.mem_singleton.mp member
  | branch _ _ _ first second =>
    rcases List.mem_append.mp member with member | member
    · exact first member
    · exact second member
  | skip _ _ ih => exact ih member
  | loop _ _ _ ih => exact ih member

end Code

end Kronk.IR

namespace Kronk.Lowering

open IR (Block Code)

variable {more : List String} {written : List IR.Instruction} {base : String}

/-! ## What blocks hold -/

/-- The blocks of a function in the making: those without terminator are pending, control goes to
blocks there are or to exits, and instructions and conditions are some that are given. -/
structure Comprises (exits : List String) (blocks : List Block) (pending : List Nat)
    (code : List IR.Instruction) (conditions : List IR.Value) : Prop where
  distinct : (blocks.map Block.label).Nodup
  labels : ∀ block ∈ blocks, IsLabel block.label
  pending : ∀ (index : Nat) (block : Block), blocks[index]? = some block →
    block.terminator = none → index ∈ pending
  targets : ∀ block ∈ blocks, ∀ terminator ∈ block.terminator, ∀ label ∈ terminator.targets,
    label ∈ exits ∨ ∃ target ∈ blocks, target.label = label
  instructions : (blocks.flatMap Block.instructions).Perm code
  conditions : ∀ block ∈ blocks, ∀ terminator ∈ block.terminator,
    ∀ value ∈ terminator.operands, value ∈ conditions

namespace Comprises

variable {exits : List String} {blocks : List Block} {pending : List Nat}
  {code : List IR.Instruction} {conditions : List IR.Value}

section

variable (holds : Comprises exits blocks pending code conditions)

include holds

theorem mono {more : List Nat}
    (subset : pending ⊆ more) : Comprises exits blocks more code conditions :=
  ⟨holds.distinct, holds.labels,
    fun index block found isOpen => subset (holds.pending index block found isOpen), holds.targets,
    holds.instructions, holds.conditions⟩

theorem exiting (subset : exits ⊆ more) : Comprises more blocks pending code conditions :=
  ⟨holds.distinct, holds.labels, holds.pending,
    fun block member terminator ends label isTarget =>
      (holds.targets block member terminator ends label isTarget).imp
        (fun isExit => subset isExit) id,
    holds.instructions, holds.conditions⟩

variable {label : String} {position : Nat} {change : Block → Block}

theorem add (fresh : ∀ block ∈ blocks, block.label ≠ label) (isLabel : IsLabel label) :
    Comprises exits (blocks ++ [{ label := label }]) (pending ++ [blocks.length])
      code conditions where
  distinct := by
    rw [List.map_append, List.map_singleton, List.nodup_append]
    refine ⟨holds.distinct, by simp, ?_⟩
    intro old isOld new isNew
    obtain ⟨block, member, rfl⟩ := List.mem_map.mp isOld
    rw [List.mem_singleton.mp isNew]
    exact fresh block member
  labels block member := by
    rcases List.mem_append.mp member with old | new
    · exact holds.labels block old
    · rw [List.mem_singleton.mp new]
      exact isLabel
  pending index block found isOpen := by
    rw [List.getElem?_append] at found
    split at found
    · exact List.mem_append_left _ (holds.pending index block found isOpen)
    · next outside =>
        have inside := (List.getElem?_eq_some_iff.mp found).1
        rw [List.length_singleton] at inside
        apply List.mem_append_right
        rw [List.mem_singleton]
        omega
  targets block member terminator ends target isTarget := by
    rcases List.mem_append.mp member with old | new
    · rcases holds.targets block old terminator ends target isTarget with isExit |
        ⟨other, inside, same⟩
      · exact .inl isExit
      · exact .inr ⟨other, List.mem_append_left _ inside, same⟩
    · rw [List.mem_singleton.mp new] at ends
      cases ends
  instructions := by
    rw [List.flatMap_append, List.flatMap_singleton, List.append_nil]
    exact holds.instructions
  conditions block member terminator ends := by
    rcases List.mem_append.mp member with old | new
    · exact holds.conditions block old terminator ends
    · rw [List.mem_singleton.mp new] at ends
      cases ends

end

theorem map_label_modify (relabels : ∀ block, (change block).label = block.label) :
    (blocks.modify position change).map Block.label = blocks.map Block.label := by
  induction blocks generalizing position with
  | nil => simp
  | cons first rest ih =>
    cases position with
    | zero => simp [relabels]
    | succ position => simp [ih]

/-- Where a label leads is the same after a block has changed. -/
theorem exists_label_modify (relabels : ∀ block, (change block).label = block.label) :
    (∃ block ∈ blocks.modify position change, block.label = label) ↔
      ∃ block ∈ blocks, block.label = label := by
  rw [← List.mem_map, ← List.mem_map, map_label_modify relabels]

theorem flatMap_modify (keeps : ∀ block, (change block).instructions = block.instructions) :
    (blocks.modify position change).flatMap Block.instructions =
      blocks.flatMap Block.instructions := by
  induction blocks generalizing position with
  | nil => simp
  | cons first rest ih =>
    cases position with
    | zero => simp [keeps]
    | succ position => simp [ih]

theorem flatMap_appended (inside : position < blocks.length) (added : List IR.Instruction) :
    ((appended position added blocks).flatMap Block.instructions).Perm
      (blocks.flatMap Block.instructions ++ added) := by
  induction blocks generalizing position with
  | nil => cases inside
  | cons first rest ih =>
    cases position with
    | zero =>
      simp only [appended, List.modify_zero_cons, List.flatMap_cons, List.append_assoc]
      exact (List.perm_append_comm).append_left _
    | succ position =>
      have later := ih (Nat.lt_of_succ_lt_succ inside)
      simp only [appended, List.modify_succ_cons, List.flatMap_cons, List.append_assoc]
      exact later.append_left _

theorem append (holds : Comprises exits blocks pending code conditions)
    (inside : position < blocks.length) (added : List IR.Instruction) :
    Comprises exits (appended position added blocks) pending (code ++ added) conditions where
  distinct := by
    rw [appended, map_label_modify (by exact fun _ => rfl)]
    exact holds.distinct
  labels block member := by
    rcases Block.mem_modify_cases member with same | ⟨old, isOld, rfl⟩
    · exact holds.labels block same
    · exact holds.labels old isOld
  pending index block found isOpen := by
    by_cases here : index = position
    · subst here
      rw [appended, List.getElem?_modify_eq] at found
      obtain ⟨old, foundOld, rfl⟩ := Option.map_eq_some_iff.mp found
      exact holds.pending index old foundOld isOpen
    · rw [appended, Block.getElem?_modify_other here] at found
      exact holds.pending index block found isOpen
  targets block member terminator ends label isTarget := by
    rw [appended, exists_label_modify (by exact fun _ => rfl)]
    rcases Block.mem_modify_cases member with same | ⟨old, isOld, rfl⟩
    · exact holds.targets block same terminator ends label isTarget
    · exact holds.targets old isOld terminator ends label isTarget
  instructions := (flatMap_appended inside added).trans (holds.instructions.append_right added)
  conditions block member terminator ends := by
    rcases Block.mem_modify_cases member with same | ⟨old, isOld, rfl⟩
    · exact holds.conditions block same terminator ends
    · exact holds.conditions old isOld terminator ends

theorem ended (holds : Comprises exits blocks (position :: pending) code conditions)
    (terminator : IR.Terminator)
    (leads : ∀ label ∈ terminator.targets,
      label ∈ exits ∨ ∃ target ∈ blocks, target.label = label) :
    Comprises exits (blocks.modify position fun block =>
      { block with terminator := some terminator })
      pending code (conditions ++ terminator.operands) where
  distinct := by
    rw [map_label_modify (by exact fun _ => rfl)]
    exact holds.distinct
  labels block member := by
    rcases Block.mem_modify_cases member with same | ⟨old, isOld, rfl⟩
    · exact holds.labels block same
    · exact holds.labels old isOld
  pending index block found isOpen := by
    by_cases here : index = position
    · subst here
      rw [List.getElem?_modify_eq] at found
      obtain ⟨old, foundOld, rfl⟩ := Option.map_eq_some_iff.mp found
      cases isOpen
    · rw [Block.getElem?_modify_other here] at found
      exact (List.mem_cons.mp (holds.pending index block found isOpen)).resolve_left here
  targets block member other ends label isTarget := by
    rw [exists_label_modify (by exact fun _ => rfl)]
    rcases Block.mem_modify_cases member with same | ⟨old, isOld, rfl⟩
    · exact holds.targets block same other ends label isTarget
    · cases ends
      exact leads label isTarget
  instructions := by
    rw [flatMap_modify (by exact fun _ => rfl)]
    exact holds.instructions
  conditions block member other ends value isOperand := by
    rcases Block.mem_modify_cases member with same | ⟨old, isOld, rfl⟩
    · exact List.mem_append_left _ (holds.conditions block same other ends value isOperand)
    · cases ends
      exact List.mem_append_right _ isOperand

theorem single (isLabel : IsLabel label) : Comprises exits [{ label := label }] [0] [] [] where
  distinct := by simp
  labels block member := by
    rw [List.mem_singleton.mp member]
    exact isLabel
  pending index block found _ := by
    have inside := (List.getElem?_eq_some_iff.mp found).1
    rw [List.length_singleton] at inside
    rw [List.mem_singleton]
    omega
  targets block member terminator ends := by
    rw [List.mem_singleton.mp member] at ends
    cases ends
  instructions := .refl _
  conditions block member terminator ends := by
    rw [List.mem_singleton.mp member] at ends
    cases ends

/-- A function is complete when no block is pending and its exit is there. -/
theorem complete {function : IR.Function}
    (holds : Comprises exits function.blocks [] code conditions)
    (reached : ∀ exit ∈ exits, ∃ target ∈ function.blocks, target.label = exit)
    (operands : ∀ value ∈ IR.operands code ++ conditions,
      Known ⟨IR.results code, function.parameterValues⟩ value)
    (named : slots code ⊆ ["ReturnValue"] ∧ (slots code).Nodup)
    (guarded : ∀ block ∈ function.blocks, Guarded block.instructions) : Complete function := by
  have locals : Locals.mk (IR.results code) function.parameterValues ⊆ .ofFunction function :=
    ⟨(holds.instructions.filterMap _).symm.subset, List.Subset.refl _⟩
  have sameSlots : (slots (function.blocks.flatMap Block.instructions)).Perm (slots code) :=
    (holds.instructions.filterMap _).filterMap _
  refine ⟨⟨holds.distinct, fun block member => ?_, fun block member value isOperand => ?_,
    fun block member terminator ends value isOperand => ?_⟩, guarded, holds.labels, ?_⟩
  · cases ended : block.terminator with
    | none =>
      obtain ⟨index, found⟩ := List.mem_iff_getElem?.mp member
      cases holds.pending index block found ended
    | some terminator =>
      refine ⟨terminator, rfl, fun label isTarget => ?_⟩
      rcases holds.targets block member terminator ended label isTarget with isExit | found
      · exact reached label isExit
      · exact found
  · obtain ⟨instruction, inside, uses⟩ := List.mem_flatMap.mp isOperand
    have written : instruction ∈ code :=
      holds.instructions.subset (List.mem_flatMap.mpr ⟨block, member, inside⟩)
    exact (operands value (List.mem_append_left _
      (List.mem_flatMap.mpr ⟨instruction, written, uses⟩))).mono locals
  · have written := holds.conditions block member terminator ends value isOperand
    exact (operands value (List.mem_append_right _ written)).mono locals
  · exact ⟨List.Subset.trans sameSlots.subset named.1, sameSlots.nodup_iff.mpr named.2⟩

end Comprises

/-! ## Structured code -/

/-- The block that is left pending after code. -/
def Draft.open (draft : Draft) (code : Code) : List Nat :=
  if code.leaves then [] else [draft.place.block]

/-- A draft went from one point to another by structured code. -/
structure Builds (exit : String) (before : Draft) (code : Code) (after : Draft) : Prop where
  since : Since exit before after
  lays : Block.Lays after.blocks exit code before.point after.point
  isOpen : code.leaves = false → after.IsOpen
  comprises : ∀ exits pending written conditions,
    Comprises exits before.blocks (before.place.block :: pending) written conditions →
      Comprises (exits ++ code.exits exit) after.blocks (after.open code ++ pending)
        (written ++ code.instructions) (conditions ++ code.conditions)
  strays : after.strays = before.strays

/-- The current function has its labels in order, and its current block has no terminator. -/
structure Ready (exit : String) (draft : Draft) : Prop where
  labelled : Labelled exit draft
  isOpen : draft.IsOpen

namespace Builds

variable {exit : String} {before after : Draft}

theorem ready {code : Code} (builds : Builds exit before code after)
    (continues : code.leaves = false) : Ready exit after :=
  ⟨builds.since.labelled, builds.isOpen continues⟩

theorem seq {middle : Draft} {first second : Code} (former : Builds exit before first middle)
    (latter : Builds exit middle second after) : Builds exit before (.seq first second) after where
  since := former.since.trans latter.since
  lays := .seq (latter.since.extended.lays former.lays) latter.lays
  isOpen := latter.isOpen
  comprises exits pending written conditions holds := by
    have between : middle.open first ++ pending ⊆ middle.place.block :: pending := by
      unfold Draft.open
      split <;> simp
    have later := latter.comprises _ pending _ _
      ((former.comprises exits pending written conditions holds).mono between)
    rw [List.append_assoc, List.append_assoc, List.append_assoc] at later
    exact later
  strays := latter.strays.trans former.strays

end Builds

variable {draft before after : Draft} {exit : String} {code : Code}

theorem Draft.Valid.block? (valid : draft.Valid) :
    draft.block? = draft.blocks[draft.place.block]? := by
  obtain ⟨function, found, same⟩ := valid.found
  unfold Draft.block?
  rw [found, same]
  rfl

theorem Draft.IsOpen.hasOpenBlock (isOpen : draft.IsOpen) (valid : draft.Valid) :
    draft.hasOpenBlock = true := by
  obtain ⟨block, found, ended⟩ := isOpen
  unfold Draft.hasOpenBlock
  rw [valid.block?, found, Option.any_some, ended]
  rfl

theorem Draft.point_of_open {block : Block}
    (found : draft.blocks[draft.place.block]? = some block) :
    draft.point = ⟨draft.place.block, block.instructions.length⟩ := by
  unfold Draft.point Draft.code
  rw [found]
  rfl

/-- Code was appended to the current block, and nothing else of the function has changed. -/
theorem Ready.builds {code : List IR.Instruction} (ready : Ready exit before)
    (place : after.place = before.place) (valid : after.Valid)
    (blocks : after.blocks = appended before.place.block code before.blocks)
    (temporaries : before.temporaries ≤ after.temporaries)
    (labels : ∀ base, before.count base ≤ after.count base)
    (strays : after.strays = before.strays) : Builds exit before (.straight code) after := by
  obtain ⟨block, found, ended⟩ := ready.isOpen
  have foundAfter : after.blocks[after.place.block]? =
      some { block with instructions := block.instructions ++ code } := by
    rw [blocks, place]
    exact Block.getElem?_modify_self found
  refine ⟨⟨ready.labelled.of_same valid labels ?_, by rw [place], ?_, ?_, .inl (by rw [place]),
    temporaries, labels⟩, ?_, fun _ => ⟨_, foundAfter, ended⟩, ?_, strays⟩
  · rw [blocks]
    exact fun other member => Block.mem_modify (by exact fun _ => rfl) member
  · rw [blocks]
    refine .modify (fun other foundOther => ?_) (fun _ => rfl) fun _ => List.prefix_append _ _
    rw [found, Option.some.injEq] at foundOther
    rw [← foundOther, ended]
  · intro index _ other
    rw [blocks]
    exact Block.getElem?_modify_other other
  · rw [Draft.point_of_open found, Draft.point_of_open foundAfter, place]
    rw [place] at foundAfter
    simp only [List.length_append]
    refine .straight foundAfter ?_
    simp
  · intro exits pending written conditions holds
    have pendingAfter : after.open (.straight code) = [before.place.block] := by
      unfold Draft.open
      rw [place]
      rfl
    rw [blocks, pendingAfter, Code.conditions, List.append_nil, Code.exits, List.append_nil]
    exact holds.append (List.getElem?_eq_some_iff.mp found).1 code

theorem Grows.builds {code : List IR.Instruction} (grows : Grows before code after)
    (ready : Ready exit before) : Builds exit before (.straight code) after := by
  have valid := ready.labelled.valid
  exact ready.builds grows.place (grows.valid valid) (grows.blocks valid) grows.temporaries
    grows.labels (grows.strays (ready.isOpen.hasOpenBlock valid))

/-! ## Ends of blocks -/

def Draft.ended (draft : Draft) (terminator : IR.Terminator) : Draft :=
  draft.noted.mapBlocks (·.modify draft.place.block fun block =>
    { block with terminator := some terminator })

def Draft.entering (draft : Draft) (block : Nat) : Draft :=
  { draft with place := ⟨draft.place.function, block⟩ }

/-- The draft with its current block ended by a jump, unless it had been ended. -/
def Draft.jumping (draft : Draft) (label : String) : Draft :=
  (Emit.jumpUnlessTerminated label draft).2

section Ends

variable {exit : String} {draft : Draft}

theorem Since.ended (ready : Ready exit draft) (terminator : IR.Terminator) :
    Since exit draft (draft.ended terminator) :=
  .change ready.labelled ready.isOpen (by exact fun _ => rfl)
    (by exact fun _ => List.prefix_refl _)

theorem Ready.ends (ready : Ready exit draft) (terminator : IR.Terminator) :
    Block.Ends (draft.ended terminator).blocks draft.point terminator := by
  obtain ⟨block, found, _⟩ := ready.isOpen
  unfold Draft.ended
  rw [ready.labelled.valid.noted.blocks_mapBlocks, Draft.point_of_open found]
  exact ⟨_, Block.getElem?_modify_self found, rfl, rfl⟩

theorem strays_ended (isOpen : draft.hasOpenBlock = true) (terminator : IR.Terminator) :
    (draft.ended terminator).strays = draft.strays := by
  change draft.strays + (if draft.hasOpenBlock then 0 else 1) = _
  rw [isOpen]
  rfl

theorem Ready.strays_ended (ready : Ready exit draft) (terminator : IR.Terminator) :
    (draft.ended terminator).strays = draft.strays :=
  Lowering.strays_ended (ready.isOpen.hasOpenBlock ready.labelled.valid) terminator

theorem Ready.comprises_ended (ready : Ready exit draft) {exits : List String} {pending : List Nat}
    {conditions : List IR.Value}
    (holds : Comprises exits draft.blocks (draft.place.block :: pending) written conditions)
    (terminator : IR.Terminator) (leads : ∀ label ∈ terminator.targets,
      label ∈ exits ∨ ∃ target ∈ draft.blocks, target.label = label) :
    Comprises exits (draft.ended terminator).blocks pending written
      (conditions ++ terminator.operands) := by
  unfold Draft.ended
  rw [ready.labelled.valid.noted.blocks_mapBlocks]
  exact holds.ended terminator leads

theorem Draft.IsOpen.jumping (isOpen : draft.IsOpen) (valid : draft.Valid) (label : String) :
    draft.jumping label = draft.ended (.jump label) := by
  obtain ⟨block, found, ended⟩ := isOpen
  unfold Draft.jumping
  rw [Emit.jumpUnlessTerminated_eq, valid.block?, found, Option.bind_some, ended]
  rfl

theorem Ready.jumping (ready : Ready exit draft) (label : String) :
    draft.jumping label = draft.ended (.jump label) :=
  ready.isOpen.jumping ready.labelled.valid label

theorem jumping_of_ends (valid : draft.Valid) {terminator : IR.Terminator}
    (ends : Block.Ends draft.blocks draft.point terminator) (label : String) :
    draft.jumping label = draft := by
  obtain ⟨block, found, _, ended⟩ := ends
  unfold Draft.jumping
  change draft.blocks[draft.place.block]? = some block at found
  rw [Emit.jumpUnlessTerminated_eq, valid.block?, found, Option.bind_some, ended]
  rfl

end Ends

theorem lays_ends_of_leaves {blocks : List Block} {start stop : IR.Position}
    (lays : Block.Lays blocks exit code start stop) (leaves : code.leaves = true) :
    Block.Ends blocks stop (.jump exit) := by
  induction lays with
  | seq _ _ _ second => exact second leaves
  | leave ended => exact ended
  | _ => cases leaves

/-- After code was built, control is sent to a label unless the code leaves. -/
theorem Builds.jumping (builds : Builds exit before code after) (label : String) :
    Since exit before (after.jumping label) ∧
      Block.Lays (after.jumping label).blocks exit code before.point after.point ∧
      Block.Continues (after.jumping label).blocks code after.point label := by
  cases leaves : code.leaves with
  | true =>
    rw [jumping_of_ends builds.since.labelled.valid (lays_ends_of_leaves builds.lays leaves)]
    refine ⟨builds.since, builds.lays, fun continues => ?_⟩
    rw [leaves] at continues
    cases continues
  | false =>
    have ready := builds.ready leaves
    rw [ready.jumping]
    have since := Since.ended ready (.jump label)
    exact ⟨builds.since.trans since, since.extended.lays builds.lays, fun _ => ready.ends _⟩

/-- After code was built and control was sent on, no block is left pending for it. -/
theorem Builds.comprises_jumping (builds : Builds exit before code after) {label : String}
    {exits : List String} (leads : label ∈ exits ∨ ∃ target ∈ after.blocks, target.label = label)
    {pending : List Nat} {conditions : List IR.Value}
    (holds : Comprises exits before.blocks (before.place.block :: pending) written conditions) :
    Comprises (exits ++ code.exits exit) (after.jumping label).blocks pending
      (written ++ code.instructions) (conditions ++ code.conditions) := by
  have built := builds.comprises exits pending written conditions holds
  unfold Draft.open at built
  cases leaves : code.leaves with
  | true =>
    rw [jumping_of_ends builds.since.labelled.valid (lays_ends_of_leaves builds.lays leaves)]
    rw [leaves] at built
    exact built
  | false =>
    have ready := builds.ready leaves
    rw [leaves] at built
    rw [ready.jumping]
    have leadsOn := leads.imp_left fun isExit => List.mem_append_left (code.exits exit) isExit
    have ended := ready.comprises_ended built (.jump label) (by
      intro other member
      rw [List.mem_singleton.mp member]
      exact leadsOn)
    rw [IR.Terminator.operands, List.append_nil] at ended
    exact ended

theorem Builds.strays_jumping (builds : Builds exit before code after) (label : String) :
    (after.jumping label).strays = before.strays := by
  rw [← builds.strays]
  cases leaves : code.leaves with
  | true =>
    rw [jumping_of_ends builds.since.labelled.valid (lays_ends_of_leaves builds.lays leaves)]
  | false =>
    have ready := builds.ready leaves
    rw [ready.jumping, ready.strays_ended]

@[simp] theorem Draft.count_jumping (draft : Draft) (label base : String) :
    (draft.jumping label).count base = draft.count base := by
  unfold Draft.jumping
  rw [Emit.jumpUnlessTerminated_eq]
  split
  · rfl
  · rfl

/-! ## Conditionals and loops -/

/-- A new block that nothing was written to. -/
structure Fresh (draft : Draft) (label : String) (position : Nat) : Prop where
  found : Block.position? draft.blocks label = some position
  empty : draft.blocks[position]? = some { label := label }

theorem exists_of_position? {blocks : List Block} {label : String} {position : Nat}
    (found : Block.position? blocks label = some position) :
    ∃ target ∈ blocks, target.label = label := by
  unfold Block.position? at found
  obtain ⟨inside, same, _⟩ := List.findIdx?_eq_some_iff_getElem.mp found
  exact ⟨_, List.getElem_mem inside, by simpa using same⟩

namespace Fresh

variable {exit : String} {before draft : Draft} {label : String} {position : Nat}

theorem withBlock (labelled : Labelled exit draft) (isBase : base ∈ labelBases) :
    Fresh (draft.withBlock base) (numbered base (draft.count base)) draft.blocks.length where
  found := labelled.position?_withBlock isBase
  empty := by
    rw [labelled.valid.blocks_withBlock, List.getElem?_append_right (Nat.le_refl _), Nat.sub_self]
    rfl

section

variable (fresh : Fresh draft label position)

include fresh

theorem inside : position < draft.blocks.length :=
  (List.getElem?_eq_some_iff.mp fresh.empty).1

/-- A new block stays untouched until it is entered. -/
theorem since {after : Draft} (since : Since exit draft after)
    (other : position ≠ draft.place.block) : Fresh after label position where
  found := since.extended.labels label position fresh.found
  empty := by rw [since.kept position fresh.inside other, fresh.empty]

theorem entering (block : Nat) : Fresh (draft.entering block) label position :=
  ⟨fresh.found, fresh.empty⟩

theorem ready (labelled : Labelled exit draft) : Ready exit (draft.entering position) :=
  ⟨⟨labelled.valid, labelled.unused, labelled.exitUnused, labelled.exitPlain⟩,
    ⟨_, fresh.empty, rfl⟩⟩

theorem point : (draft.entering position).point = ⟨position, 0⟩ := by
  have found : (draft.entering position).blocks[(draft.entering position).place.block]? =
      some { label := label } := fresh.empty
  exact Draft.point_of_open found

end

end Fresh

/-- New blocks were added, and nothing was written to them. -/
structure Opened (exit : String) (before draft : Draft) (labels : List String) : Prop where
  since : Since exit before draft
  isReady : Ready exit draft
  inside : before.place.block < before.blocks.length
  place : draft.place = before.place
  point : draft.point = before.point
  temporaries : draft.temporaries = before.temporaries
  length : draft.blocks.length = before.blocks.length + labels.length
  untouched : ∀ index label, labels[index]? = some label →
    Fresh draft label (before.blocks.length + index)
  comprises : ∀ exits pending written conditions,
    Comprises exits before.blocks pending written conditions →
      Comprises exits draft.blocks (pending ++ List.range' before.blocks.length labels.length)
        written conditions
  strays : draft.strays = before.strays

theorem Ready.inside (ready : Ready exit draft) : draft.place.block < draft.blocks.length := by
  obtain ⟨block, found, _⟩ := ready.isOpen
  exact (List.getElem?_eq_some_iff.mp found).1

theorem Ready.withBlock (ready : Ready exit draft) (isBase : base ∈ labelBases) :
    Ready exit (draft.withBlock base) :=
  ⟨ready.labelled.withBlock isBase, ready.isOpen.withBlock ready.labelled.valid⟩

theorem Ready.point_withBlock (ready : Ready exit draft) (base : String) :
    (draft.withBlock base).point = draft.point := by
  unfold Draft.point Draft.code
  rw [ready.labelled.valid.blocks_withBlock, Draft.place_withBlock,
    List.getElem?_append_left ready.inside]

theorem Ready.opened (ready : Ready exit draft) : Opened exit draft draft [] where
  since := .refl ready.labelled
  isReady := ready
  inside := ready.inside
  place := rfl
  point := rfl
  temporaries := rfl
  length := rfl
  untouched index label found := by cases found
  comprises _ _ _ _ holds := by
    rw [List.length_nil, List.range'_zero, List.append_nil]
    exact holds
  strays := rfl

namespace Opened

variable {exit : String} {before draft : Draft} {labels : List String}

section

variable (opened : Opened exit before draft labels)

include opened

theorem withBlock (isBase : base ∈ labelBases) :
    Opened exit before (draft.withBlock base) (labels ++ [numbered base (draft.count base)]) := by
  have ready := opened.isReady
  have since := Since.withBlock ready.labelled isBase
  have fresh := Fresh.withBlock ready.labelled isBase
  have inside := opened.inside
  refine ⟨opened.since.trans since, ready.withBlock isBase, inside, opened.place, ?_,
    opened.temporaries, ?_, fun index label found => ?_,
    fun exits pending written conditions holds => ?_, opened.strays⟩
  · rw [ready.point_withBlock, opened.point]
  · rw [ready.labelled.valid.blocks_withBlock, List.length_append, List.length_append,
      opened.length, Nat.add_assoc]
    rfl
  · rw [List.getElem?_append] at found
    split at found
    · refine (opened.untouched index label found).since since ?_
      rw [opened.place]
      omega
    · next outside =>
        obtain ⟨small, same⟩ := List.getElem?_eq_some_iff.mp found
        obtain rfl : index = labels.length := by
          rw [List.length_singleton] at small
          omega
        rw [opened.length] at fresh
        rw [← same]
        simpa only [List.getElem_singleton] using fresh
  · have isLabel : IsLabel (numbered base (draft.count base)) := .inr ⟨base, isBase, _, rfl⟩
    have added := (opened.comprises exits pending written conditions holds).add
      (ready.labelled.fresh isBase) isLabel
    rw [List.append_assoc, opened.length] at added
    rw [ready.labelled.valid.blocks_withBlock, List.length_append, List.length_singleton,
      List.range'_concat, Nat.one_mul]
    exact added

theorem sinceEnded (terminator : IR.Terminator) : Since exit before (draft.ended terminator) :=
  opened.since.trans (.ended opened.isReady terminator)

theorem ends (terminator : IR.Terminator) :
    Block.Ends (draft.ended terminator).blocks before.point terminator := by
  rw [← opened.point]
  exact opened.isReady.ends terminator

/-- The new blocks are still untouched when the current block is ended. -/
theorem fresh (terminator : IR.Terminator)
    {index : Nat} {label : String} (found : labels[index]? = some label) :
    Fresh (draft.ended terminator) label (before.blocks.length + index) := by
  have inside := opened.inside
  refine (opened.untouched index label found).since (.ended opened.isReady terminator) ?_
  rw [opened.place]
  omega

end

variable {first second third : String} {holds : IR.Value} {middle last : Draft}

theorem firstFresh (opened : Opened exit before draft (first :: more))
    (terminator : IR.Terminator) : Fresh (draft.ended terminator) first before.blocks.length := by
  have found : (first :: more)[0]? = some first := rfl
  exact opened.fresh terminator found

theorem ready (opened : Opened exit before draft (first :: more)) (terminator : IR.Terminator) :
    Ready exit ((draft.ended terminator).entering before.blocks.length) :=
  (opened.firstFresh terminator).ready (opened.sinceEnded terminator).labelled

section

variable (opened : Opened exit before draft labels)

include opened

/-- The current block is ended by going to new blocks, which are pending then. -/
theorem comprises_ended {exits : List String} {pending : List Nat} {conditions : List IR.Value}
    (holds : Comprises exits before.blocks (before.place.block :: pending) written conditions)
    (terminator : IR.Terminator) (leads : ∀ label ∈ terminator.targets, label ∈ labels) :
    Comprises exits (draft.ended terminator).blocks
      (List.range' before.blocks.length labels.length ++ pending) written
      (conditions ++ terminator.operands) := by
  have held := opened.comprises exits _ written conditions holds
  rw [← opened.place] at held
  refine (opened.isReady.comprises_ended held terminator fun label member => .inr ?_).mono
    List.perm_append_comm.subset
  obtain ⟨index, found⟩ := List.mem_iff_getElem?.mp (leads label member)
  exact exists_of_position? (opened.untouched index label found).found

theorem strays_ended (terminator : IR.Terminator) :
    (draft.ended terminator).strays = before.strays :=
  (opened.isReady.strays_ended terminator).trans opened.strays

/-- The new blocks are there after code was built in the first one. -/
theorem leads {terminator : IR.Terminator} {code : Code}
    {after : Draft} {index : Nat} {label : String} (found : labels[index]? = some label)
    (builds : Builds exit ((draft.ended terminator).entering before.blocks.length) code after) :
    ∃ target ∈ after.blocks, target.label = label :=
  exists_of_position? (builds.since.extended.labels _ _ (opened.fresh terminator found).found)

/-- What was built in the first new block leaves the other ones untouched. -/
theorem later {terminator : IR.Terminator} {code : Code} {after : Draft}
    (builds : Builds exit ((draft.ended terminator).entering before.blocks.length) code after)
    (label : String) : Since exit before (after.jumping label) ∧
      ∀ index other, labels[index + 1]? = some other →
        Fresh (after.jumping label) other (before.blocks.length + (index + 1)) := by
  have entered := (opened.sinceEnded terminator).enter (Nat.le_refl before.blocks.length)
  obtain ⟨since, _, _⟩ := builds.jumping label
  refine ⟨entered.trans since, fun index other found => ?_⟩
  refine ((opened.fresh terminator found).entering _).since since ?_
  exact Nat.ne_of_gt (Nat.lt_add_of_pos_right (Nat.succ_pos index))

end

/-- Two bodies were built in the first two new blocks, and both go on in the third one. -/
theorem branch (opened : Opened exit before draft [first, second, third])
    {consequent alternative : Code} (buildsFirst : Builds exit
      ((draft.ended (.branch holds first second)).entering before.blocks.length) consequent middle)
    (buildsSecond : Builds exit
      ((middle.jumping third).entering (before.blocks.length + 1)) alternative last) :
    Builds exit before (.branch holds consequent alternative)
      ((last.jumping third).entering (before.blocks.length + 2)) := by
  have fresh₁ := opened.firstFresh (.branch holds first second)
  obtain ⟨sinceMiddle, fresh⟩ := opened.later buildsFirst third
  have fresh₂ := fresh 0 second rfl
  have fresh₃ := fresh 1 third rfl
  obtain ⟨sinceFirst, laysFirst, continuesFirst⟩ := buildsFirst.jumping third
  obtain ⟨sinceSecond, laysSecond, continuesSecond⟩ := buildsSecond.jumping third
  have freshRest : Fresh (last.jumping third) third (before.blocks.length + 2) :=
    (fresh₃.entering _).since sinceSecond (Nat.ne_of_gt (Nat.lt_succ_self _))
  have extended := sinceSecond.extended
  rw [fresh₁.point] at laysFirst
  rw [fresh₂.point] at laysSecond
  refine ⟨((sinceMiddle.enter (Nat.le_succ _)).trans sinceSecond).enter
    (Nat.le_add_right _ _), ?_, fun _ => ⟨_, freshRest.empty, rfl⟩, ?_, ?_⟩
  · rw [freshRest.point]
    refine .branch (extended.ends (sinceFirst.extended.ends (opened.ends _)))
      (extended.labels _ _ (sinceFirst.extended.labels _ _ fresh₁.found))
      (extended.labels _ _ fresh₂.found) freshRest.found (extended.lays laysFirst) laysSecond
      (fun continues => extended.ends (continuesFirst continues)) continuesSecond
  · intro exits pending written conditions held
    have found : [first, second, third][2]? = some third := rfl
    have ended := opened.comprises_ended held (.branch holds first second)
      (by simp [IR.Terminator.targets])
    have afterFirst := buildsFirst.comprises_jumping (.inr (opened.leads found buildsFirst)) ended
    have afterSecond := buildsSecond.comprises_jumping
      (.inr (exists_of_position? (buildsSecond.since.extended.labels _ _ fresh₃.found))) afterFirst
    rw [List.append_assoc, List.append_assoc, List.append_assoc, List.append_assoc] at afterSecond
    exact afterSecond
  · exact (buildsSecond.strays_jumping third).trans
      ((buildsFirst.strays_jumping third).trans (opened.strays_ended (.branch holds first second)))

/-- A body was built in the first new block, which is left out if the condition holds. -/
theorem skip (opened : Opened exit before draft [first, second]) {body : Code} (builds : Builds exit
      ((draft.ended (.branch holds second first)).entering before.blocks.length) body last) :
    Builds exit before (.skip holds body)
      ((last.jumping second).entering (before.blocks.length + 1)) := by
  have fresh₁ := opened.firstFresh (.branch holds second first)
  obtain ⟨sinceLast, fresh⟩ := opened.later builds second
  have freshRest := fresh 0 second rfl
  obtain ⟨since, lays, continues⟩ := builds.jumping second
  rw [fresh₁.point] at lays
  refine ⟨sinceLast.enter (Nat.le_succ _), ?_, fun _ => ⟨_, freshRest.empty, rfl⟩, ?_, ?_⟩
  · rw [freshRest.point]
    exact .skip (since.extended.ends (opened.ends _)) (since.extended.labels _ _ fresh₁.found)
      freshRest.found lays continues
  · intro exits pending written conditions held
    have found : [first, second][1]? = some second := rfl
    have ended := opened.comprises_ended held (.branch holds second first)
      (by simp [IR.Terminator.targets])
    have afterBody := builds.comprises_jumping (.inr (opened.leads found builds)) ended
    rw [List.append_assoc] at afterBody
    exact afterBody
  · exact (builds.strays_jumping second).trans (opened.strays_ended (.branch holds second first))

/-- The body of a loop is entered after its test. -/
theorem loop_ready (opened : Opened exit before draft [first, second, third]) (holds : IR.Value)
    {test : List IR.Instruction}
    (buildsTest : Builds exit ((draft.ended (.jump first)).entering before.blocks.length)
      (.straight test) middle) : Since exit before (middle.ended (.branch holds second third)) ∧
      Fresh (middle.ended (.branch holds second third)) second (before.blocks.length + 1) ∧
      Fresh (middle.ended (.branch holds second third)) third (before.blocks.length + 2) := by
  have fresh₂ : Fresh (draft.ended (.jump first)) second (before.blocks.length + 1) :=
    opened.fresh _ rfl
  have fresh₃ : Fresh (draft.ended (.jump first)) third (before.blocks.length + 2) :=
    opened.fresh _ rfl
  have entered := (opened.sinceEnded (.jump first)).enter (Nat.le_refl before.blocks.length)
  have ended := Since.ended (buildsTest.ready rfl) (.branch holds second third)
  have since := buildsTest.since.trans ended
  refine ⟨entered.trans since, (fresh₂.entering _).since since ?_,
    (fresh₃.entering _).since since ?_⟩
  · exact Nat.ne_of_gt (Nat.lt_succ_self _)
  · exact Nat.ne_of_gt (Nat.lt_add_of_pos_right (by decide))

/-- A test was built in the first new block and a body in the second one, which goes back to the
test. -/
theorem loop (opened : Opened exit before draft [first, second, third])
    {test : List IR.Instruction} {body : Code}
    (buildsTest : Builds exit ((draft.ended (.jump first)).entering before.blocks.length)
      (.straight test) middle) (buildsBody : Builds exit
      ((middle.ended (.branch holds second third)).entering (before.blocks.length + 1)) body last) :
    Builds exit before (.loop test holds body)
      ((last.jumping first).entering (before.blocks.length + 2)) := by
  have fresh₁ := opened.firstFresh (.jump first)
  obtain ⟨sinceTest, fresh₂, fresh₃⟩ := opened.loop_ready holds buildsTest
  obtain ⟨sinceBody, laysBody, continues⟩ := buildsBody.jumping first
  have ended := Since.ended (buildsTest.ready rfl) (.branch holds second third)
  have freshRest : Fresh (last.jumping first) third (before.blocks.length + 2) :=
    (fresh₃.entering _).since sinceBody (Nat.ne_of_gt (Nat.lt_succ_self _))
  have extended := sinceBody.extended
  have laysTest := ended.extended.lays buildsTest.lays
  rw [fresh₁.point] at laysTest
  rw [fresh₂.point] at laysBody
  have fromStart := (buildsTest.since.trans ended).extended
  refine ⟨((sinceTest.enter (Nat.le_succ _)).trans sinceBody).enter (Nat.le_add_right _ _), ?_,
    fun _ => ⟨_, freshRest.empty, rfl⟩, ?_, ?_⟩
  · rw [freshRest.point]
    exact .loop (extended.ends (fromStart.ends (opened.ends _)))
      (extended.labels _ _ (fromStart.labels _ _ fresh₁.found)) (extended.labels _ _ fresh₂.found)
      freshRest.found (extended.lays laysTest)
      (extended.ends ((buildsTest.ready rfl).ends _)) laysBody continues
  · intro exits pending written conditions held
    have ended := opened.comprises_ended held (.jump first) (by simp [IR.Terminator.targets])
    have found : [first, second, third][1]? = some second := rfl
    have foundRest : [first, second, third][2]? = some third := rfl
    have afterTest := (buildsTest.ready rfl).comprises_ended (buildsTest.comprises _ _ _ _ ended)
      (.branch holds second third) (by
        simpa [IR.Terminator.targets] using
          ⟨.inr (opened.leads found buildsTest), .inr (opened.leads foundRest buildsTest)⟩)
    have afterBody := buildsBody.comprises_jumping
      (.inr (exists_of_position? (buildsBody.since.extended.labels _ _
        (fromStart.labels _ _ fresh₁.found)))) afterTest
    simp only [IR.Terminator.operands, Code.conditions, Code.exits, List.append_assoc,
      List.append_nil] at afterBody
    exact afterBody
  · have afterTest := (buildsTest.ready rfl).strays_ended (.branch holds second third)
    exact (buildsBody.strays_jumping first).trans
      (afterTest.trans (buildsTest.strays.trans (opened.strays_ended (.jump first))))

end Opened

theorem Ready.leave (ready : Ready exit draft) :
    Builds exit draft .leave (draft.ended (.jump exit)) := by
  have since := Since.ended ready (.jump exit)
  have point : (draft.ended (.jump exit)).point = draft.point := by
    obtain ⟨block, found, _⟩ := ready.isOpen
    have foundAfter : (draft.ended (.jump exit)).blocks[(draft.ended (.jump exit)).place.block]? =
        some { block with terminator := some (.jump exit) } := by
      unfold Draft.ended
      rw [ready.labelled.valid.noted.blocks_mapBlocks]
      exact Block.getElem?_modify_self found
    rw [Draft.point_of_open found, Draft.point_of_open foundAfter]
    rfl
  refine ⟨since, ?_, by simp [Code.leaves], ?_, ready.strays_ended _⟩
  · rw [point]
    exact .leave (ready.ends _)
  · intro exits pending written conditions holds
    have ended := ready.comprises_ended (holds.exiting (List.subset_append_left exits [exit]))
      (.jump exit) (by simp [IR.Terminator.targets])
    rw [Code.instructions, List.append_nil]
    exact ended

/-! ## The steps of conditionals and loops -/

section Steps

variable {exit : String} {draft : Draft}

theorem length_withBlock (labelled : Labelled exit draft) (base : String) :
    (draft.withBlock base).blocks.length = draft.blocks.length + 1 := by
  rw [labelled.valid.blocks_withBlock, List.length_append]
  rfl

theorem openArms_spec (ready : Ready exit draft) (holds : IR.Value) :
    ∃ first second third opened, Opened exit draft opened [first, second, third] ∧
      openArms holds draft = (⟨draft.blocks.length + 1, third, draft.blocks.length + 2⟩,
          (opened.ended (.branch holds first second)).entering draft.blocks.length) := by
  have isThen : "if.then" ∈ labelBases := by decide
  have isElse : "if.else" ∈ labelBases := by decide
  have isRest : "if.cont" ∈ labelBases := by decide
  refine ⟨_, _, _, _, ((ready.opened.withBlock isThen).withBlock isElse).withBlock isRest, ?_⟩
  have length₁ := length_withBlock ready.labelled "if.then"
  have length₂ := length_withBlock (ready.labelled.withBlock isThen) "if.else"
  rw [length₁] at length₂
  unfold openArms
  simp only [bind, StateT.bind, freshBlock_eq, Emit.terminate_eq, Emit.enterBlock, length₁, length₂]
  rfl

theorem turnArms_eq (arms : Arms) (draft : Draft) :
    turnArms arms draft = ((), (draft.jumping arms.restLabel).entering arms.elseBlock) := rfl

theorem closeArms_eq (arms : Arms) (draft : Draft) :
    closeArms arms draft = ((), (draft.jumping arms.restLabel).entering arms.restBlock) := rfl

theorem openLoop_spec (ready : Ready exit draft) :
    ∃ first second third opened, Opened exit draft opened [first, second, third] ∧ openLoop draft =
        (⟨first, second, draft.blocks.length + 1, third, draft.blocks.length + 2⟩,
          (opened.ended (.jump first)).entering draft.blocks.length) := by
  have isTest : "while.cond" ∈ labelBases := by decide
  have isBody : "while.body" ∈ labelBases := by decide
  have isRest : "while.exit" ∈ labelBases := by decide
  refine ⟨_, _, _, _, ((ready.opened.withBlock isTest).withBlock isBody).withBlock isRest, ?_⟩
  have length₁ := length_withBlock ready.labelled "while.cond"
  have length₂ := length_withBlock (ready.labelled.withBlock isTest) "while.body"
  rw [length₁] at length₂
  unfold openLoop
  simp only [bind, StateT.bind, freshBlock_eq, Emit.terminate_eq, Emit.enterBlock, length₁, length₂]
  rfl

theorem openUnless_spec (ready : Ready exit draft) (holds : IR.Value) :
    ∃ first second opened, Opened exit draft opened [first, second] ∧ Emit.openUnless holds draft =
        ((second, draft.blocks.length + 1),
          (opened.ended (.branch holds second first)).entering draft.blocks.length) := by
  have isCopy : "copy.field" ∈ labelBases := by decide
  have isDone : "copy.cont" ∈ labelBases := by decide
  refine ⟨_, _, _, (ready.opened.withBlock isCopy).withBlock isDone, ?_⟩
  have length := length_withBlock ready.labelled "copy.field"
  unfold Emit.openUnless
  simp only [bind, StateT.bind, freshBlock_eq, Emit.terminate_eq, Emit.enterBlock, length]
  rfl

theorem enterLoop_eq (round : Round) (holds : IR.Value) (draft : Draft) :
    enterLoop round holds draft =
      ((), (draft.ended (.branch holds round.bodyLabel round.exitLabel)).entering
        round.bodyBlock) := rfl

theorem closeLoop_eq (round : Round) (draft : Draft) : closeLoop round draft =
      ((), (draft.jumping round.testLabel).entering round.exitBlock) := rfl

end Steps

end Kronk.Lowering
