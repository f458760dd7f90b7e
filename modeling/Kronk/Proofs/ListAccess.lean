import Kronk.Proofs.LocalNames

/-!
# Accesses to lists

The code of a program computes the address of an element only where the index or the bounds were
checked against the size of the same list, or in the elements block of a list that it is building.
After the check only the index is normalised, and for a slice its header is built, before the
elements block is read; but the code of the index or of the bounds stands between the size and the
check.  Each check is made for the line of its expression.

The first character of a text is read without any check.
-/

namespace Kronk.Lowering

open IR (Instruction Operation Value)

/-- Code that stores the first character of a text: it reads the elements block and then loads from
it. -/
def StoresFirst (text target : Value) (code : List Instruction) : Prop :=
  ∃ block read character, ReadsHeader text 1 block read ∧
    code = read ++ [⟨some character, .load .i8 block⟩,
      ⟨none, .store (.result character .i8) target⟩]

theorem Writes.storesFirst {known : Locals} {text target : Value} (knownText : Known known text)
    (knownTarget : Known known target) :
    Writes known (do
      let character ← Emit.load .i8 (← Emit.elementsOf text .char)
      Emit.store character target) fun _ code _ => StoresFirst text target code := by
  refine .bind (.elementsOf .char knownText) fun known₁ read block sub₁ readsBlock => ?_
  obtain ⟨blockKnown, reads⟩ := readsBlock
  refine .bind (.compute trivial (by simpa [Operation.operands] using blockKnown)) ?_
  rintro known₂ _ _ sub₂ ⟨characterKnown, character, rfl, rfl⟩
  have targetKnown := (knownTarget.mono sub₁).mono sub₂
  refine .weaken (.perform trivial
    (by simpa [Operation.operands] using ⟨characterKnown, targetKnown⟩)) ?_
  rintro _ _ _ rfl
  exact ⟨block, read, character, reads, rfl⟩

theorem assignCharacter_storesFirst {line : Nat} {target source operand : Operand}
    {bench after : Workbench} (valid : bench.frame.draft.Valid)
    (outcome : assignCharacter line target source bench = .ok operand after) :
    ∃ code, Grows bench.frame.draft code after.frame.draft ∧
      StoresFirst source.value target.value code := by
  unfold assignCharacter at outcome
  split at outcome
  · obtain ⟨_, _, ⟨⟩, _⟩ := bind_eq_ok outcome
  · obtain ⟨⟨⟩, stored, stores, ⟨⟩⟩ := bind_eq_ok outcome
    have known := knows_all [source.value, target.value]
    have writes := Writes.storesFirst (known source.value (by simp)) (known target.value (by simp))
    obtain ⟨code, grows, _, storesFirst⟩ := writes bench.frame.draft valid
    rw [emit_eq_ok stores] at grows
    exact ⟨code, grows, storesFirst⟩

/-- Every address of an element in a function has its check before it. -/
def AddressesChecked (function : IR.Function) : Prop :=
  ∀ block ∈ function.blocks, ∀ before after result type base index,
    block.instructions = before ++ ⟨result, .elementPointer type base index⟩ :: after →
      Addressed before base index

theorem Complete.addressesChecked {function : IR.Function} (complete : Complete function) :
    AddressesChecked function := by
  intro block member before after result type base index split
  exact complete.guarded block member before _ after split

end Kronk.Lowering

namespace Kronk.Compile

open Lowering

/-- After a file was compiled, every address of an element in a function of any module has its check
before it; but an assignment to a character reads the first character of its source unchecked. -/
theorem addresses_checked {waiting : List String} {includedAt : Location} {fuel : Nat}
    {path id result : String} {session after : Session}
    (checked : Registry.All AddressesChecked session.registry)
    (outcome : file waiting includedAt fuel path id session = .ok result after) :
    (∀ module ∈ after.registry.registrations, ∀ function ∈ module.code.functions,
      ∀ block ∈ function.blocks, ∀ before later address type base index,
        block.instructions = before ++ ⟨address, .elementPointer type base index⟩ :: later →
          Addressed before base index) ∧
      ∀ line target source operand bench next, bench.frame.draft.Valid →
        assignCharacter line target source bench = .ok operand next →
          ∃ code, Grows bench.frame.draft code next.frame.draft ∧
            StoresFirst source.value target.value code := by
  have stable : Stable (Registry.All AddressesChecked) :=
    all_stable fun _ complete => complete.addressesChecked
  have checkedAfter := (stable.file waiting includedAt fuel path id).of_ok outcome checked
  constructor
  · intro module registered function member
    exact checkedAfter module registered function member
  · intro line target source operand bench next valid assigned
    exact assignCharacter_storesFirst valid assigned

/-- A program that replaces a character by the first one of an empty text. -/
def replaceText : String := "soit s = \"ab\"\ns[0] = \"\"\n"

def replace : Session where
  files := { nodes := ⟨[("/main.krk", .file replaceText.toUTF8)]⟩ }

/-- The program compiles, and the address of the character that it replaces has its check before it.
The first character of a text that is a parameter is read unchecked at the start of a program. -/
theorem replace_addresses :
    (∃ result after, file [] {} 2 "main.krk" "" replace = .ok result after ∧
      ∃ module ∈ after.registry.registrations, ∃ function ∈ module.code.functions,
        ∃ block ∈ function.blocks, ∃ before later address type base index,
          block.instructions = before ++ ⟨address, .elementPointer type base index⟩ :: later ∧
            Addressed before base index) ∧
      ∃ operand next code,
        assignCharacter 1 ⟨.parameter 0 "to" (.pointer .i8), .char, false⟩
            ⟨.parameter 1 "from" (.pointer .i8), .string, false⟩
            ⟨replace, Frame.initial "main" "/main.krk"⟩ = .ok operand next ∧
          Grows (Frame.initial "main" "/main.krk").draft code next.frame.draft ∧
          StoresFirst (.parameter 1 "from" (.pointer .i8)) (.parameter 0 "to" (.pointer .i8))
            code := by
  have checked : Registry.All AddressesChecked replace.registry := fun _ member => by cases member
  have found : succeedsIn (file [] {} 2 "main.krk" "" replace) (fun after =>
      after.registry.registrations.any fun module => module.code.functions.any fun function =>
        function.blocks.any fun block => block.instructions.any fun instruction =>
          match instruction.operation with
          | .elementPointer .. => true
          | _ => false) = true := by
    decide +kernel
  obtain ⟨result, after, outcome, found⟩ := exists_of_succeedsIn found
  obtain ⟨addresses, characters⟩ := addresses_checked checked outcome
  constructor
  · obtain ⟨module, registered, found⟩ := List.any_eq_true.mp found
    obtain ⟨function, member, found⟩ := List.any_eq_true.mp found
    obtain ⟨block, isBlock, found⟩ := List.any_eq_true.mp found
    obtain ⟨⟨address, operation⟩, inside, isAddress⟩ := List.any_eq_true.mp found
    obtain ⟨before, later, split⟩ := List.append_of_mem inside
    cases operation with
    | elementPointer type base index =>
      exact ⟨result, after, outcome, module, registered, function, member, block, isBlock, before,
        later, address, type, base, index, split,
        addresses module registered function member block isBlock _ _ _ _ _ _ split⟩
    | _ => cases isAddress
  · obtain ⟨code, grows, stores⟩ := characters 1 ⟨.parameter 0 "to" (.pointer .i8), .char, false⟩
      ⟨.parameter 1 "from" (.pointer .i8), .string, false⟩ _
      ⟨replace, Frame.initial "main" "/main.krk"⟩ _ Nat.zero_lt_one rfl
    exact ⟨_, _, code, rfl, grows, stores⟩

end Kronk.Compile
