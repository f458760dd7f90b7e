import Kronk.Lowering.Draft

/-!
# Support routines

Emitted code calls a few routines of the runtime: checks of indices, bounds and divisors, the
normalisation of indices, copying of bytes and allocation.  Each is declared when it is first used.
-/

namespace Kronk.Lowering

inductive Routine where
  | indexCheck
  | sliceCheck
  | normaliseIndex
  | divisorCheck
  | copyBytes
  | allocate
deriving DecidableEq, Repr

namespace Routine

def name : Routine → String
  | indexCheck => "_kronk_list_idx_check"
  | sliceCheck => "_kronk_list_slice_check"
  | normaliseIndex => "_kronk_list_fix_idx"
  | divisorCheck => "_kronk_zero_div_check"
  | copyBytes => "_kronk_memcpy"
  | allocate => "malloc"

def parameters : Routine → List (String × IR.Ty)
  | indexCheck => [("idx", .i64), ("size", .i64), ("file", IR.Ty.bytes), ("line", .i64)]
  | sliceCheck =>
    [("start", .i64), ("end", .i64), ("size", .i64), ("file", IR.Ty.bytes), ("line", .i64)]
  | normaliseIndex => [("idx", .i64), ("size", .i64)]
  | divisorCheck => [("x", .double), ("file", IR.Ty.bytes), ("line", .i64)]
  | copyBytes => [("src", IR.Ty.bytes), ("dst", IR.Ty.bytes), ("bytes", .i64)]
  | allocate => [("bytes", .i64)]

def result : Routine → IR.Ty
  | normaliseIndex => .i64
  | allocate => IR.Ty.bytes
  | _ => .void

def declaration (routine : Routine) : IR.Function :=
  { name := routine.name, result := routine.result, parameters := routine.parameters }

end Routine

namespace Emit

def routine (routine : Routine) : Emit IR.Callee := do callee (← declare routine.declaration)

/-- Calls a check with the place it is made for: the name of the file and the line. -/
def check (checking : Routine) (file : IR.Value) (line : Nat) (arguments : List IR.Value) :
    Emit Unit := do
  let function ← routine checking
  perform (.call function (arguments ++ [file, .int64 line]))

/-- Turns an index that may count from the end into one that counts from the start. -/
def normaliseIndex (index size : IR.Value) : Emit IR.Value := do
  compute (.call (← routine .normaliseIndex) [index, size])

def copyValues (target source : IR.Value) (type : IR.Ty) (count : IR.Value) : Emit Unit := do
  let bytes ← compute (.arithmetic .mul count (.sizeOf type))
  let function ← routine .copyBytes
  let origin ← compute (.convert .bitcast source IR.Ty.bytes)
  let destination ← compute (.convert .bitcast target IR.Ty.bytes)
  perform (.call function [origin, destination, bytes])

/-- Allocates `count` values of a type that outlive the function. -/
def heapAllocate (type : IR.Ty) (count : IR.Value) : Emit IR.Value := do
  let bytes ← compute (.arithmetic .mul count (.sizeOf type))
  let raw ← compute (.call (← routine .allocate) [bytes])
  compute (.convert .bitcast raw (.pointer type))

/-- Allocates `count` values of a type in the frame of the function. -/
def stackAllocate (type : IR.Ty) (count : IR.Value) : Emit IR.Value := alloca type (some count)

end Emit

end Kronk.Lowering
