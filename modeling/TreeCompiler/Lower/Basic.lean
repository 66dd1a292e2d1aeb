import TreeCompiler.Code.Tree
import TreeCompiler.Source.Span

set_option autoImplicit false

namespace TreeCompiler

open Code
open Source (Span)

inductive LowerError
  | unbound (name : String) (span : Span)
  | unknownFunction (name : String) (span : Span)
  | effectAsValue
  | missingFormal (function : String) (index : Nat)
  deriving DecidableEq, Repr

def LowerError.message : LowerError → String
  | unbound name span =>
      "`" ++ name ++ "` has no binding in the current frame (at " ++ span.text ++ ")"
  | unknownFunction name span =>
      "call to unregistered function `" ++ name ++ "` (at " ++ span.text ++ ")"
  | effectAsValue => "statement used where a value is required"
  | missingFormal function index =>
      "frame of `" ++ function ++ "` has no formal at index " ++ index.repr

-- The names drawn before a failure stay drawn.
abbrev LowerM := EStateM LowerError Supply

namespace LowerM

def draw {α : Type} (action : StateM Supply α) : LowerM α := fun supply =>
  let (value, rest) := action.run supply
  .ok value rest

def ofExcept {α : Type} : Except LowerError α → LowerM α
  | .ok value => pure value
  | .error error => throw error

@[simp] theorem run_draw {α : Type} (action : StateM Supply α) (supply : Supply) :
    (draw action).run supply = .ok (action.run supply).1 (action.run supply).2 := rfl

end LowerM

inductive Lowered
  | value (exp : Exp)
  | effect (stm : Stm)

namespace Lowered

def truth : Int64 := 1

def toExp : Lowered → Except LowerError Exp
  | value exp => .ok exp
  | effect _ => .error .effectAsValue

def toStm : Lowered → Stm
  | value exp => if exp.isPure then .nop else .exp exp
  | effect stm => stm

def toBranch (lowered : Lowered) (ifTrue ifFalse : Label) : Except LowerError Stm := do
  return .cjump .equal (← lowered.toExp) (.const truth) ifTrue ifFalse

end Lowered

end TreeCompiler
