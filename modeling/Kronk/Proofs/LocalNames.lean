import Kronk.Proofs.WellFormedness

/-!
# Local names of functions

The parameters of a function, the labels of its blocks and its named result share one space of
names.  Lowering gives labels and results names that are distinct, but it takes the names of
parameters as they are written.  The main statement is `Compile.localNames_nodup_iff`: the names of
a function are distinct if and only if those of its parameters are distinct and none of them was
given to a label or to a result.
-/

namespace Kronk.IR.Function

def parameterNames (function : Function) : List String := function.parameters.map Prod.fst

/-- The names that lowering gave: labels of blocks and named results. -/
def givenNames (function : Function) : List String :=
  function.blocks.map Block.label ++
    Lowering.slots (function.blocks.flatMap Block.instructions)

/-- The names that must be distinct in a function. -/
def localNames (function : Function) : List String :=
  function.parameterNames ++ function.givenNames

end Kronk.IR.Function

namespace Kronk.Lowering

/-- The names that lowering gives other than by numbering. -/
def reservedNames : List String := fixedLabels ++ ["ReturnValue"]

/-- The names that lowering gave are distinct; they are reserved, or they have a dot. -/
structure NamesApart (function : IR.Function) : Prop where
  distinct : function.givenNames.Nodup
  origin : ∀ name ∈ function.givenNames, name ∈ reservedNames ∨ '.' ∈ name.toList

private theorem dot_mem_numbered {base : String} (isBase : base ∈ labelBases) (number : Nat) :
    '.' ∈ (numbered base number).toList := by
  have dotted : ∀ base ∈ labelBases, '.' ∈ base.toList := by decide
  rw [toList_numbered]
  exact List.mem_append_left _ (dotted base isBase)

theorem IsLabel.origin {label : String} (isLabel : IsLabel label) :
    label ∈ fixedLabels ∨ '.' ∈ label.toList := by
  rcases isLabel with isFixed | ⟨base, isBase, number, rfl⟩
  · exact .inl isFixed
  · exact .inr (dot_mem_numbered isBase number)

theorem IsLabel.ne_slot {label : String} (isLabel : IsLabel label) : label ≠ "ReturnValue" := by
  rintro rfl
  rcases isLabel.origin with isFixed | dotted
  · revert isFixed
    decide
  · revert dotted
    decide

/-- In a complete function labels and results have names of their own. -/
theorem Complete.namesApart {function : IR.Function} (complete : Complete function) :
    NamesApart function where
  distinct := by
    refine List.nodup_append.mpr ⟨complete.distinct, complete.named.2, ?_⟩
    rintro label isLabel name isSlot rfl
    obtain ⟨block, member, rfl⟩ := List.mem_map.mp isLabel
    exact (complete.labels block member).ne_slot (List.mem_singleton.mp (complete.named.1 isSlot))
  origin name member := by
    rcases List.mem_append.mp member with isLabel | isSlot
    · obtain ⟨block, inside, rfl⟩ := List.mem_map.mp isLabel
      exact (complete.labels block inside).origin.imp_left (List.mem_append_left _)
    · exact .inl (List.mem_append_right _ (complete.named.1 isSlot))

/-- Only the names of parameters can clash. -/
theorem NamesApart.nodup_iff {function : IR.Function} (apart : NamesApart function) :
    function.localNames.Nodup ↔ function.parameterNames.Nodup ∧
      ∀ name ∈ function.parameterNames, name ∉ function.givenNames := by
  rw [IR.Function.localNames, List.nodup_append]
  constructor
  · rintro ⟨distinct, _, disjoint⟩
    exact ⟨distinct, fun name isParameter isGiven => disjoint name isParameter name isGiven rfl⟩
  · rintro ⟨distinct, disjoint⟩
    refine ⟨distinct, apart.distinct, ?_⟩
    rintro name isParameter _ isGiven rfl
    exact disjoint name isParameter isGiven

end Kronk.Lowering

namespace Kronk.Compile

open Lowering

/-- After a file was compiled, the names of a function of any module are distinct if and only if
those of its parameters are distinct and none of them was given to a label or a result; and the
names that were given are distinct, and reserved unless they have a dot. -/
theorem localNames_nodup_iff {waiting : List String} {includedAt : Location} {fuel : Nat}
    {path id result : String} {session after : Session}
    (apart : Registry.All NamesApart session.registry)
    (outcome : file waiting includedAt fuel path id session = .ok result after) :
    ∀ module ∈ after.registry.registrations, ∀ function ∈ module.code.functions,
      (function.localNames.Nodup ↔ function.parameterNames.Nodup ∧
        ∀ name ∈ function.parameterNames, name ∉ function.givenNames) ∧
      function.givenNames.Nodup ∧
      ∀ name ∈ function.givenNames, name ∈ reservedNames ∨ '.' ∈ name.toList := by
  have stable : Stable (Registry.All NamesApart) := all_stable fun _ complete => complete.namesApart
  have apartAfter := (stable.file waiting includedAt fuel path id).of_ok outcome apart
  intro module registered function member
  have namesApart := apartAfter module registered function member
  exact ⟨namesApart.nodup_iff, namesApart.distinct, namesApart.origin⟩

/-- A program whose function has a parameter with the name of its result. -/
def clashText : String := "fn f(ReturnValue: reel) reel \x7b\nret ReturnValue\n\x7d\n"

def clash : Session where
  files := { nodes := ⟨[("/main.krk", .file clashText.toUTF8)]⟩ }

/-- The program compiles, and the names of a function of its module are not distinct. -/
theorem clash_localNames :
    ∃ result after, file [] {} 2 "main.krk" "" clash = .ok result after ∧
      ∃ module ∈ after.registry.registrations, ∃ function ∈ module.code.functions,
        function.parameterNames = ["ReturnValue"] ∧ function.givenNames.Nodup ∧
        ¬function.localNames.Nodup := by
  have apart : Registry.All NamesApart clash.registry := fun _ member => by cases member
  have found : succeedsIn (file [] {} 2 "main.krk" "" clash) (fun after =>
      after.registry.registrations.any fun module => module.code.functions.any fun function =>
        function.parameterNames == ["ReturnValue"] &&
          function.givenNames.contains "ReturnValue") = true := by
    decide +kernel
  obtain ⟨result, after, outcome, found⟩ := exists_of_succeedsIn found
  obtain ⟨module, registered, found⟩ := List.any_eq_true.mp found
  obtain ⟨function, member, found⟩ := List.any_eq_true.mp found
  rw [Bool.and_eq_true, beq_iff_eq, List.contains_iff_mem] at found
  obtain ⟨distinct, given, _⟩ :=
    localNames_nodup_iff apart outcome module registered function member
  refine ⟨result, after, outcome, module, registered, function, member, found.1, given, ?_⟩
  intro nodup
  apply (distinct.mp nodup).2 "ReturnValue" _ found.2
  rw [found.1]
  exact List.mem_cons_self

end Kronk.Compile
