import Kronk.Lowering.Routine

/-!
# Guarded code

Code that computes the address of an element or a quotient calls a check before.  `Guarded` says of
code what stands before each such instruction: the size that is checked is read from the header of
the list whose elements are then used.
-/

namespace Kronk.IR

/-- Whether an operand is a parameter or a result of the function it is used in. -/
def Value.isLocal : Value → Bool
  | parameter _ _ _ => true
  | result _ _ => true
  | _ => false

end Kronk.IR

namespace Kronk.Lowering

open IR (Instruction Operation Value)

/-- Code that reads a field of the header of a list: the size or the elements block. -/
def ReadsHeader (list : Value) (field : Nat) (value : Value) (code : List Instruction) : Prop :=
  ∃ record held type address result,
    code = [⟨some address, .fieldPointer record list field held⟩,
      ⟨some result, .load type (.result address (.pointer held))⟩] ∧
    value = .result result type

/-- Code that calls a check, with the place that it is made for. -/
def Checks (routine : Routine) (arguments : List Value) (code : List Instruction) : Prop :=
  ∃ callee place, callee.name = routine.name ∧ code = [⟨none, .call callee (arguments ++ place)⟩]

/-- Code that calls a check for a line of a file. -/
def ChecksAt (routine : Routine) (line : Nat) (arguments : List Value)
    (code : List Instruction) : Prop :=
  ∃ callee file, callee.name = routine.name ∧
    code = [⟨none, .call callee (arguments ++ [file, .int64 line])⟩]

theorem ChecksAt.checks {routine : Routine} {line : Nat} {arguments : List Value}
    {code : List Instruction} :
    ChecksAt routine line arguments code → Checks routine arguments code :=
  fun ⟨callee, _, named, same⟩ => ⟨callee, _, named, same⟩

/-- Code that copies so many values. -/
def Copies (target source count : Value) (code : List Instruction) : Prop :=
  ∃ type bytes origin goal callee, callee.name = Routine.copyBytes.name ∧
    code = [⟨some bytes, .arithmetic .mul count (.sizeOf type)⟩,
      ⟨some origin, .convert .bitcast source .bytes⟩, ⟨some goal, .convert .bitcast target .bytes⟩,
      ⟨none, .call callee [.result origin .bytes, .result goal .bytes, .result bytes count.type]⟩]

def Normalises (index size position : Value) (code : List Instruction) : Prop :=
  ∃ callee result, callee.name = Routine.normaliseIndex.name ∧
    code = [⟨some result, .call callee [index, size]⟩] ∧ position = .result result callee.result

/-- Code that builds the header of a new list and allocates its elements block. -/
def BuildsHeader (size block : Value) (code : List Instruction) : Prop :=
  ∃ slot record held address list first second third,
    code = [⟨some address, .alloca slot (some size)⟩, ⟨some list, .alloca record none⟩,
      ⟨some first, .fieldPointer record (.result list (.pointer record)) 0 held⟩,
      ⟨none, .store size (.result first (.pointer held))⟩,
      ⟨some second, .fieldPointer record (.result list (.pointer record)) 1 third⟩,
      ⟨none, .store block (.result second (.pointer third))⟩] ∧
    block = .result address (.pointer slot)

/-- Code that divides two reals after a check for a line. -/
def Divides (line : Nat) (left right : Value) (code : List Instruction) : Prop :=
  ∃ check quotient, ChecksAt .divisorCheck line [right] check ∧
    code = check ++ [⟨some quotient, .arithmetic .fdiv left right⟩]

/-- Code that ends with the address of an element, whose index was checked for a line. -/
def Locates (line : Nat) (code : List Instruction) : Prop :=
  ∃ list size given index base read inner check fix block slot address,
    ReadsHeader list 0 size read ∧ ChecksAt .indexCheck line [given, size] check ∧
    Normalises given size index fix ∧ ReadsHeader list 1 base block ∧
    read ++ inner ++ check ++ fix ++ block ++ [⟨some address, .elementPointer slot base index⟩] <:+
      code

/-- Code that builds a slice, whose bounds were checked for a line.  So many values are allocated
and copied as lie between the normalised bounds. -/
def Slices (line : Nat) (code : List Instruction) : Prop :=
  ∃ list size start stop first last base storage read inner check fixStart fixStop count header
      block slot source copy,
    ReadsHeader list 0 size read ∧ ChecksAt .sliceCheck line [start, stop, size] check ∧
    Normalises start size first fixStart ∧ Normalises stop size last fixStop ∧
    BuildsHeader (.result count last.type) storage header ∧ ReadsHeader list 1 base block ∧
    Copies storage (.result source (.pointer slot)) (.result count last.type) copy ∧
    read ++ inner ++ check ++ fixStart ++ fixStop ++ [⟨some count, .arithmetic .sub last first⟩] ++
      header ++ block ++ [⟨some source, .elementPointer slot base first⟩] ++ copy <:+: code

/-- What stands before the address of an element. -/
inductive Addressed (code : List Instruction) (base index : Value) : Prop where
  /-- A place in a new elements block of a constant size. -/
  | fresh {size position : Nat} {header : List Instruction}
      (builds : BuildsHeader (.int64 size) base header) (inside : position < size)
      (isPosition : index = .int64 position) (stands : header <:+: code)
  /-- The place behind the elements of a first list in the new elements block of both. -/
  | behind {other : Value} {sum : IR.LocalName} {header : List Instruction}
      (builds : BuildsHeader (.result sum index.type) base header)
      (stands : [⟨some sum, .arithmetic .add index other⟩] ++ header <:+: code)
  /-- The index was checked against the size of the list and normalised. -/
  | element {list size given : Value} {read inner check fix block : List Instruction}
      (reads : ReadsHeader list 0 size read) (checks : Checks .indexCheck [given, size] check)
      (normalises : Normalises given size index fix) (readsBlock : ReadsHeader list 1 base block)
      (stands : read ++ inner ++ check ++ fix ++ block <:+ code)
  /-- The bounds of a slice were checked against the size of the list and normalised, and then the
  header of the slice was built. -/
  | slice {list size start stop last storage : Value} {count : IR.LocalName}
      {read inner check first second header block : List Instruction}
      (reads : ReadsHeader list 0 size read) (checks : Checks .sliceCheck [start, stop, size] check)
      (normalisesStart : Normalises start size index first)
      (normalisesStop : Normalises stop size last second)
      (builds : BuildsHeader (.result count last.type) storage header)
      (readsBlock : ReadsHeader list 1 base block)
      (stands : read ++ inner ++ check ++ first ++ second ++
        [⟨some count, .arithmetic .sub last index⟩] ++ header ++ block <:+ code)

/-- What stands before an operation, if it needs a guard. -/
def Justified (code : List Instruction) : Operation → Prop
  | .elementPointer _ base index => Addressed code base index
  | .arithmetic .fdiv _ divisor => ∃ check, Checks .divisorCheck [divisor] check ∧ check <:+ code
  | _ => True

/-- Every instruction of code that needs a guard has one before it. -/
def Guarded (code : List Instruction) : Prop :=
  ∀ before instruction after, code = before ++ instruction :: after →
    Justified before instruction.operation

theorem Addressed.mono {code : List Instruction} {base index : Value}
    (addressed : Addressed code base index) (more : List Instruction) :
    Addressed (more ++ code) base index := by
  have later : code <:+ more ++ code := List.suffix_append more code
  cases addressed with
  | fresh builds inside isPosition stands =>
    exact .fresh builds inside isPosition (stands.trans later.isInfix)
  | behind builds stands => exact .behind builds (stands.trans later.isInfix)
  | element reads checks normalises readsBlock stands =>
    exact .element reads checks normalises readsBlock (stands.trans later)
  | slice reads checks normalisesStart normalisesStop builds readsBlock stands =>
    exact .slice reads checks normalisesStart normalisesStop builds readsBlock
      (stands.trans later)

theorem Justified.mono {code : List Instruction} {operation : Operation}
    (justified : Justified code operation) (more : List Instruction) :
    Justified (more ++ code) operation := by
  unfold Justified at justified ⊢
  split at justified
  · exact justified.mono more
  · obtain ⟨check, checks, stands⟩ := justified
    exact ⟨check, checks, stands.trans (List.suffix_append more code)⟩
  · trivial

namespace Guarded

variable {code : List Instruction}

theorem nil : Guarded [] := by
  intro before instruction after split
  simp at split

theorem append {later : List Instruction} (first : Guarded code) (second : Guarded later) :
    Guarded (code ++ later) := by
  intro before instruction after split
  rcases List.append_eq_append_iff.mp split with ⟨between, rfl, rest⟩ | ⟨between, rfl, rest⟩
  · exact (second between instruction after rest).mono code
  · cases between with
    | nil => simpa using (second [] instruction after rest.symm).mono before
    | cons head tail =>
      cases rest
      exact first before instruction tail rfl

theorem snoc {instruction : Instruction} (guarded : Guarded code)
    (justified : Justified code instruction.operation) : Guarded (code ++ [instruction]) := by
  intro before other after split
  rcases List.append_eq_append_iff.mp split with ⟨between, rfl, rest⟩ | ⟨between, rfl, rest⟩
  · cases between with
    | nil =>
      cases rest
      rw [List.append_nil]
      exact justified
    | cons head tail => simp at rest
  · cases between with
    | nil =>
      cases rest
      simpa using justified
    | cons head tail =>
      cases rest
      exact guarded before other tail rfl

theorem single {instruction : Instruction} (justified : Justified [] instruction.operation) :
    Guarded [instruction] :=
  Guarded.nil.snoc justified

end Guarded

end Kronk.Lowering
