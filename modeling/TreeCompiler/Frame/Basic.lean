import TreeCompiler.Code.Tree

set_option autoImplicit false

namespace TreeCompiler

open Code

inductive Access
  | inFrame (offset : Int64)
  | inReg (temp : Temp)
  deriving DecidableEq, Repr

def Access.exp (framePointer : Exp) : Access → Exp
  | inFrame offset => .mem (.binop .plus framePointer (.const offset))
  | inReg temp => .temp temp

/-- What lowering asks of the activation records of a target. -/
class Frame (F : Type) where
  label : F → Label
  formals : F → List Access
  -- A local that escapes has to live in memory.
  allocLocal (escapes : Bool) : F → StateM Supply (Access × F)
  framePointer : F → Exp
  returnValue : F → Exp
  -- What the target does on entry and exit of a body.
  enclose : F → Stm → Stm

abbrev FrameMaker (F : Type) := Label → Nat → StateM Supply F

end TreeCompiler
