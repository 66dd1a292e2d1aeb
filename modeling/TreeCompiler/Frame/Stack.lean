import TreeCompiler.Frame.Basic

set_option autoImplicit false

namespace TreeCompiler

open Code

structure WordSize where
  bytes : Nat
  positive : 1 ≤ bytes
  bounded : bytes ≤ 1024
  deriving DecidableEq, Repr

structure InvalidWordSize where
  bytes : Int
  deriving DecidableEq, Repr

def InvalidWordSize.message (invalid : InvalidWordSize) : String :=
  "word size must be between 1 and 1024 bytes, got " ++ invalid.bytes.repr

def WordSize.check (bytes : Int) : Except InvalidWordSize WordSize :=
  if valid : 1 ≤ bytes ∧ bytes ≤ 1024 then
    .ok { bytes := bytes.toNat, positive := by omega, bounded := by omega }
  else
    .error ⟨bytes⟩

/--
The plain layout. Above the frame pointer lie the saved frame pointer, the return address and then
the formals, a word each; below it lie the escaping locals. All frames share the two temporaries.
-/
structure StackLayout where
  wordSize : WordSize
  framePointer : Temp
  returnValue : Temp
  deriving DecidableEq, Repr

def StackLayout.reserve (wordSize : WordSize) : StateM Supply StackLayout := do
  let framePointer ← Supply.freshTemp
  let returnValue ← Supply.freshTemp
  return { wordSize, framePointer, returnValue }

structure StackFrame where
  label : Label
  formals : List Access
  layout : StackLayout
  escaped : Nat := 0
  deriving DecidableEq, Repr

def StackLayout.formalOffset (layout : StackLayout) (index : Nat) : Int64 :=
  -- An offset that no word can hold is the nearest one that it can.
  .ofIntClamp ((index + 2) * layout.wordSize.bytes)

def StackLayout.localOffset (layout : StackLayout) (count : Nat) : Int64 :=
  .ofIntClamp (-(count * layout.wordSize.bytes))

def StackLayout.frame (layout : StackLayout) (label : Label) (formals : Nat) : StackFrame where
  label := label
  formals := (List.range formals).map fun index => .inFrame (layout.formalOffset index)
  layout := layout

def StackLayout.maker (layout : StackLayout) : FrameMaker StackFrame := fun label formals =>
  pure (layout.frame label formals)

def StackFrame.allocLocal (escapes : Bool) (frame : StackFrame) :
    StateM Supply (Access × StackFrame) := do
  if escapes then
    let count := frame.escaped + 1
    return (.inFrame (frame.layout.localOffset count), { frame with escaped := count })
  else
    return (.inReg (← Supply.freshTemp), frame)

instance : Frame StackFrame where
  label := StackFrame.label
  formals := StackFrame.formals
  allocLocal := StackFrame.allocLocal
  framePointer frame := .temp frame.layout.framePointer
  returnValue frame := .temp frame.layout.returnValue
  enclose _ body := body

end TreeCompiler
