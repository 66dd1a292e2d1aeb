import TreeCompiler.Frame.Stack

set_option autoImplicit false

namespace TreeCompiler

open Code

structure Tailoring where
  registerFormals : Bool := false
  omitsLastFormal : Bool := false
  spillsLocals : Bool := false
  marksBody : Bool := false
  deriving DecidableEq, Repr

structure TailoredFrame where
  base : StackFrame
  tailoring : Tailoring
  deriving DecidableEq, Repr

namespace TailoredFrame

def placeFormals (tailoring : Tailoring) (formals : List Access) : StateM Supply (List Access) := do
  let formals := if tailoring.omitsLastFormal then formals.dropLast else formals
  if tailoring.registerFormals then
    formals.mapM fun _ => return .inReg (← Supply.freshTemp)
  else
    return formals

def maker (layout : StackLayout) (tailoring : Tailoring) : FrameMaker TailoredFrame :=
  fun label formals => do
    let base := layout.frame label formals
    return { base := { base with formals := ← placeFormals tailoring base.formals }, tailoring }

def allocLocal (escapes : Bool) (frame : TailoredFrame) :
    StateM Supply (Access × TailoredFrame) := do
  let (access, base) ← frame.base.allocLocal (escapes || frame.tailoring.spillsLocals)
  return (access, { frame with base })

def enclose (frame : TailoredFrame) (body : Stm) : Stm :=
  if frame.tailoring.marksBody then
    let name := frame.base.label.text
    Stm.block [.label ⟨name ++ ".entry"⟩, body, .label ⟨name ++ ".exit"⟩]
  else
    body

instance : Frame TailoredFrame where
  label frame := frame.base.label
  formals frame := frame.base.formals
  allocLocal := allocLocal
  framePointer frame := Frame.framePointer frame.base
  returnValue frame := Frame.returnValue frame.base
  enclose := enclose

end TailoredFrame

end TreeCompiler
