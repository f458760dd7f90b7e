import Kronk.Lowering.Stmt
import Kronk.Proofs.ControlFlow
import Kronk.Proofs.Guards

/-!
# Labels and blocks of a draft

What the operations on drafts do to the blocks of the current function.  Labels are made of a base
and a number, so a fresh label is the label of no block there is.
-/

namespace Kronk.Lowering

open IR (Block)

/-! ## Fresh labels -/

/-- The label with a base and a number; the first one is plain. -/
def numbered (base : String) (number : Nat) : String :=
  if number = 0 then base else base ++ toString number

def Draft.count (draft : Draft) (base : String) : Nat := (draft.labels.get? base).getD 0

def labelBases : List String :=
  ["if.then", "if.else", "if.cont", "while.cond", "while.body", "while.exit", "copy.field",
    "copy.cont"]

def numberDigits (number : Nat) : List Char := if number = 0 then [] else Nat.toDigits 10 number

theorem toList_numbered (base : String) (number : Nat) :
    (numbered base number).toList = base.toList ++ numberDigits number := by
  unfold numbered numberDigits
  split
  · simp
  · rw [String.toList_append]
    exact congrArg _ Nat.toList_repr

variable {number : Nat}

private theorem isDigit_of_mem_numberDigits {c : Char} (member : c ∈ numberDigits number) :
    c.isDigit = true := by
  unfold numberDigits at member
  split at member
  · cases member
  · exact Nat.isDigit_of_mem_toDigits (by decide) (by decide) member

private theorem numberDigits_injective {other : Nat}
    (same : numberDigits number = numberDigits other) :
    number = other := by
  unfold numberDigits at same
  split at same <;> split at same
  · omega
  · exact absurd same.symm Nat.toDigits_ne_nil
  · exact absurd same Nat.toDigits_ne_nil
  · rw [← Nat.ofDigitChars_ten_toDigits (n := number), same, Nat.ofDigitChars_ten_toDigits]

/-- A label whose base has no digits shows its base. -/
theorem takeWhile_numbered {base : String} (plain : ∀ c ∈ base.toList, c.isDigit = false)
    (number : Nat) :
    (numbered base number).toList.takeWhile (fun c => !c.isDigit) = base.toList := by
  rw [toList_numbered, List.takeWhile_append_of_pos (by simpa using plain)]
  cases digits : numberDigits number with
  | nil => simp
  | cons c rest =>
    have isDigit : c.isDigit = true :=
      isDigit_of_mem_numberDigits (digits ▸ List.mem_cons_self)
    simp [isDigit]

/-- Labels with bases that have no digits are equal only if they have one base and one number. -/
theorem numbered_injective {base other : String} {another : Nat}
    (plain : ∀ c ∈ base.toList, c.isDigit = false)
    (plainOther : ∀ c ∈ other.toList, c.isDigit = false)
    (same : numbered base number = numbered other another) : base = other ∧ number = another := by
  have bases : base.toList = other.toList := by
    rw [← takeWhile_numbered plain number, same, takeWhile_numbered plainOther]
  obtain rfl := String.toList_inj.mp bases
  have texts := congrArg String.toList same
  rw [toList_numbered, toList_numbered] at texts
  exact ⟨rfl, numberDigits_injective (List.append_cancel_left texts)⟩

theorem plain_of_all {text : String} (all : text.toList.all (fun c => !c.isDigit) = true) :
    ∀ c ∈ text.toList, c.isDigit = false := by
  intro c member
  simpa using List.all_eq_true.mp all c member

theorem labelBases_plain : ∀ base ∈ labelBases, ∀ c ∈ base.toList, c.isDigit = false := by
  have all : labelBases.all (fun base => base.toList.all fun c => !c.isDigit) = true := by decide
  intro base isBase
  exact plain_of_all (List.all_eq_true.mp all base isBase)

/-! ## Blocks of the current function -/

namespace Draft

def blocks (draft : Draft) : List Block :=
  (draft.function?.map IR.Function.blocks).getD []

def code (draft : Draft) : List IR.Instruction :=
  (draft.blocks[draft.place.block]?.map Block.instructions).getD []

def point (draft : Draft) : IR.Position := ⟨draft.place.block, draft.code.length⟩

/-- There is a current function. -/
def Valid (draft : Draft) : Prop := draft.place.function < draft.functions.length

/-- The code of the current function is good, block by block. -/
def All (good : List IR.Instruction → Prop) (draft : Draft) : Prop :=
  ∀ block ∈ draft.blocks, good block.instructions

/-- The draft with the blocks of the current function changed. -/
def mapBlocks (draft : Draft) (change : List Block → List Block) : Draft :=
  draft.mapFunction fun function => { function with blocks := change function.blocks }

theorem Valid.found {draft : Draft} (valid : draft.Valid) :
    ∃ function, draft.function? = some function ∧ draft.blocks = function.blocks := by
  refine ⟨draft.functions[draft.place.function], List.getElem?_eq_getElem valid, ?_⟩
  unfold blocks function?
  rw [List.getElem?_eq_getElem valid]
  rfl

theorem Valid.noted {draft : Draft} (valid : draft.Valid) : draft.noted.Valid := valid

section MapBlocks

variable {draft : Draft} {change : List Block → List Block}

@[simp] theorem place_mapBlocks : (draft.mapBlocks change).place = draft.place := rfl

@[simp] theorem count_mapBlocks (base : String) :
    (draft.mapBlocks change).count base = draft.count base := rfl

@[simp] theorem temporaries_mapBlocks :
    (draft.mapBlocks change).temporaries = draft.temporaries := rfl

@[simp] theorem length_mapBlocks :
    (draft.mapBlocks change).functions.length = draft.functions.length :=
  List.length_modify ..

theorem function?_mapBlocks : (draft.mapBlocks change).function? =
    draft.function?.map fun function => { function with blocks := change function.blocks } := by
  unfold mapBlocks mapFunction function?
  exact List.getElem?_modify_eq ..

theorem Valid.blocks_mapBlocks (valid : draft.Valid) :
    (draft.mapBlocks change).blocks = change draft.blocks := by
  obtain ⟨function, found, same⟩ := valid.found
  rw [blocks, function?_mapBlocks, found, same]
  rfl

theorem All.mapBlocks {good : List IR.Instruction → Prop} (all : draft.All good)
    (keeps : ∀ blocks, (∀ block ∈ blocks, good block.instructions) →
      ∀ block ∈ change blocks, good block.instructions) : (draft.mapBlocks change).All good := by
  unfold All blocks at all ⊢
  rw [function?_mapBlocks]
  cases found : draft.function? with
  | none => exact nofun
  | some function =>
    rw [found] at all
    exact keeps function.blocks all

theorem functions_mapBlocks_of_ne {index : Nat} (other : index ≠ draft.place.function) :
    (draft.mapBlocks change).functions[index]? = draft.functions[index]? := by
  unfold mapBlocks mapFunction
  rw [List.getElem?_modify]
  simp [Ne.symm other]

theorem Valid.mapBlocks (valid : draft.Valid) : (draft.mapBlocks change).Valid := by
  unfold Valid
  rw [length_mapBlocks]
  exact valid

end MapBlocks

end Draft

namespace Emit

variable (draft : Draft)

theorem terminate_eq (terminator : IR.Terminator) :
    terminate terminator draft = ((), draft.noted.mapBlocks fun blocks =>
      blocks.modify draft.place.block fun block =>
        { block with terminator := some terminator }) := rfl

theorem newBlock_eq (label : String) : newBlock label draft =
      (draft.blocks.length, draft.mapBlocks fun blocks => blocks ++ [{ label := label }]) := by
  change ((draft.function?.map fun function => function.blocks.length).getD 0, _) = _
  unfold Draft.blocks
  cases draft.function? <;> rfl

theorem jumpUnlessTerminated_eq (label : String) : jumpUnlessTerminated label draft =
      if (draft.block?.bind Block.terminator).isSome then ((), draft)
      else terminate (.jump label) draft := by
  unfold jumpUnlessTerminated
  change (if (!(draft.block?.bind Block.terminator).isSome) = true then _ else _ : Emit Unit) draft
    = _
  cases (draft.block?.bind Block.terminator).isSome <;> rfl

end Emit

section Good

variable {good : List IR.Instruction → Prop}

theorem good_modify {position : Nat} {change : Block → Block}
    (keeps : ∀ block, good block.instructions → good (change block).instructions)
    (blocks : List Block) (all : ∀ block ∈ blocks, good block.instructions) :
    ∀ block ∈ blocks.modify position change, good block.instructions := by
  intro block member
  obtain ⟨index, found⟩ := List.mem_iff_getElem?.mp member
  rw [List.getElem?_modify] at found
  obtain ⟨old, foundOld, rfl⟩ := Option.map_eq_some_iff.mp found
  have goodOld := all old (List.mem_of_getElem? foundOld)
  split
  · exact keeps old goodOld
  · exact goodOld

theorem good_newBlock (label : String) (nil : good []) (blocks : List Block)
    (all : ∀ block ∈ blocks, good block.instructions) :
    ∀ block ∈ blocks ++ [{ label := label }], good block.instructions := by
  intro block member
  rcases List.mem_append.mp member with old | new
  · exact all block old
  · rw [List.mem_singleton.mp new]
    exact nil

end Good

/-! ## Staying in the current function -/

def head (function : IR.Function) : IR.Function := { function with blocks := [] }

/-- Only blocks of the current function have changed, and no code was added. -/
structure Stays (before after : Draft) : Prop where
  function : after.place.function = before.place.function
  others : ∀ index : Nat, index ≠ before.place.function →
    after.functions[index]? = before.functions[index]?
  length : after.functions.length = before.functions.length
  temporaries : after.temporaries = before.temporaries
  texts : after.texts = before.texts
  head : after.function?.map head = before.function?.map head
  all : ∀ {good : List IR.Instruction → Prop}, good [] → before.All good → after.All good

namespace Stays

theorem trans {before middle after : Draft} (former : Stays before middle)
    (latter : Stays middle after) : Stays before after where
  function := latter.function.trans former.function
  others index other := by
    rw [latter.others index (former.function ▸ other), former.others index other]
  length := latter.length.trans former.length
  temporaries := latter.temporaries.trans former.temporaries
  texts := latter.texts.trans former.texts
  head := latter.head.trans former.head
  all nil := latter.all nil ∘ former.all nil

variable {draft : Draft}

theorem mapBlocks {change : List Block → List Block}
    (keeps : ∀ {good : List IR.Instruction → Prop}, good [] → ∀ blocks : List Block,
      (∀ block ∈ blocks, good block.instructions) →
        ∀ block ∈ change blocks, good block.instructions) :
    Stays draft (draft.mapBlocks change) where
  function := rfl
  others _ other := Draft.functions_mapBlocks_of_ne other
  length := Draft.length_mapBlocks
  temporaries := rfl
  texts := rfl
  head := by
    rw [Draft.function?_mapBlocks, Option.map_map]
    rfl
  all nil all := all.mapBlocks (keeps nil)

/-- The functions, the current one, the temporaries and the texts are the same. -/
theorem of_same {after : Draft} (functions : after.functions = draft.functions)
    (function : after.place.function = draft.place.function)
    (temporaries : after.temporaries = draft.temporaries) (texts : after.texts = draft.texts) :
    Stays draft after := by
  have same : after.function? = draft.function? := by
    unfold Draft.function?
    rw [functions, function]
  refine ⟨function, fun _ _ => by rw [functions], by rw [functions], temporaries, texts,
    by rw [same], ?_⟩
  unfold Draft.All Draft.blocks
  rw [same]
  exact fun _ all => all

theorem heads {after : Draft} (stays : Stays draft after) :
    after.functions.map Lowering.head = draft.functions.map Lowering.head := by
  apply List.ext_getElem?
  intro index
  rw [List.getElem?_map, List.getElem?_map]
  by_cases here : index = draft.place.function
  · have same := stays.head
    unfold Draft.function? at same
    rwa [stays.function, ← here] at same
  · rw [stays.others index here]

end Stays

/-- The emission changes only blocks of the current function. -/
def Local {α : Type} (emission : Emit α) : Prop := ∀ draft, Stays draft (emission draft).2

namespace Local

variable {α β : Type}

theorem pure (value : α) : Local (pure value) := fun _ => .of_same rfl rfl rfl rfl

theorem bind {first : Emit α} {next : α → Emit β} (starts : Local first)
    (continues : ∀ value, Local (next value)) : Local (first >>= next) :=
  fun draft => (starts draft).trans (continues _ _)

theorem terminate (terminator : IR.Terminator) : Local (Emit.terminate terminator) := by
  intro draft
  have noted : Stays draft draft.noted := .of_same rfl rfl rfl rfl
  exact noted.trans (.mapBlocks fun _ => good_modify fun _ goodBlock => goodBlock)

theorem enterBlock (block : Nat) : Local (Emit.enterBlock block) :=
  fun _ => .of_same rfl rfl rfl rfl

theorem newBlock (label : String) : Local (Emit.newBlock label) := by
  intro draft
  rw [Emit.newBlock_eq]
  dsimp only
  exact .mapBlocks (good_newBlock label)

theorem freshBlock (base : String) : Local (Emit.freshBlock base) :=
  bind (fun _ => .of_same rfl rfl rfl rfl) fun _ => bind (newBlock _) fun _ => pure _

theorem jumpUnlessTerminated (label : String) : Local (Emit.jumpUnlessTerminated label) := by
  intro draft
  rw [Emit.jumpUnlessTerminated_eq]
  split
  · exact pure () draft
  · exact terminate _ draft

theorem openUnless (holds : IR.Value) : Local (Emit.openUnless holds) :=
  bind (freshBlock _) fun _ => bind (freshBlock _) fun _ => bind (terminate _) fun _ =>
    bind (enterBlock _) fun _ => pure _

theorem openArms (holds : IR.Value) : Local (openArms holds) :=
  bind (freshBlock _) fun _ => bind (freshBlock _) fun _ => bind (freshBlock _) fun _ =>
    bind (terminate _) fun _ => bind (enterBlock _) fun _ => pure _

theorem turnArms (arms : Arms) : Local (turnArms arms) :=
  bind (jumpUnlessTerminated _) fun _ => enterBlock _

theorem closeArms (arms : Arms) : Local (closeArms arms) :=
  bind (jumpUnlessTerminated _) fun _ => enterBlock _

theorem openLoop : Local openLoop :=
  bind (freshBlock _) fun _ => bind (freshBlock _) fun _ => bind (freshBlock _) fun _ =>
    bind (terminate _) fun _ => bind (enterBlock _) fun _ => pure _

theorem enterLoop (round : Round) (holds : IR.Value) : Local (enterLoop round holds) :=
  bind (terminate _) fun _ => enterBlock _

theorem closeLoop (round : Round) : Local (closeLoop round) :=
  bind (jumpUnlessTerminated _) fun _ => enterBlock _

end Local

end Kronk.Lowering
