import TreeCompiler.Code.Fragment
import TreeCompiler.Lower.Expr
import TreeCompiler.Resolve.Program

set_option autoImplicit false

namespace TreeCompiler.Lower

open Code Source Resolve

variable {F : Type} [Frame F]

/--
The state of lowering one procedure: its frame, the variables that live in the frame, and those
that stand for static data. A name is bound in one of the two at most.
-/
structure Context (F : Type) where
  frame : F
  locals : Bindings Access := .empty
  constants : Bindings Exp := .empty

namespace Context

def value? (context : Context F) (name : String) : Option Exp :=
  (context.constants.get? name).or
    ((context.locals.get? name).map (Access.exp (Frame.framePointer context.frame)))

def scope (context : Context F) (functions : FunctionTable) : Scope where
  value? := context.value?
  declares := functions.contains

def bindLocal (context : Context F) (name : String) (access : Access) : Context F :=
  { context with
    locals := context.locals.insert name access
    constants := context.constants.erase name }

def bindConstant (context : Context F) (name : String) (exp : Exp) : Context F :=
  { context with
    locals := context.locals.erase name
    constants := context.constants.insert name exp }

end Context

def lowerAssign (functions : FunctionTable) (context : Context F) (assign : Assign) :
    LowerM (Context F × Lowered) := do
  -- The value is lowered first and sees the binding that it replaces.
  let value ← LowerM.ofExcept (← lowerExpr (context.scope functions) assign.value).toExp
  let (access, frame) ← LowerM.draw (Frame.allocLocal false context.frame)
  let target := access.exp (Frame.framePointer frame)
  return ({ context with frame }.bindLocal assign.name access, .effect (.move target value))

def lowerAssigns (functions : FunctionTable) (context : Context F) :
    List Assign → LowerM (Context F × List Stm)
  | [] => return (context, [])
  | assign :: rest => do
      let (next, lowered) ← lowerAssign functions context assign
      let (final, statements) ← lowerAssigns functions next rest
      return (final, lowered.toStm :: statements)

def bindFormals (function : String) (index : Nat) (bindings : Bindings Access) :
    List Param → List Access → Except LowerError (Bindings Access)
  | [], _ => .ok bindings
  | _ :: _, [] => .error (.missingFormal function index)
  | param :: params, formal :: formals =>
      bindFormals function (index + 1) (bindings.insert param.name formal) params formals

def lowerDeclaration (functions : FunctionTable) (maker : FrameMaker F)
    (outer : Bindings Access) (declaration : Declaration) : LowerM (Procedure F) := do
  let frame ← LowerM.draw (maker (Label.function declaration.name) declaration.params.length)
  let formals ← LowerM.ofExcept
    (bindFormals declaration.name 0 .empty declaration.params (Frame.formals frame))
  -- Parameters are laid over the locals of the procedure around it; static data is not visible.
  let start : Context F := { frame, locals := formals.overlay outer }
  let (context, statements) ← lowerAssigns functions start declaration.body
  let result ← LowerM.ofExcept
    (← lowerExpr (context.scope functions) declaration.result).toExp
  let last := Stm.move (Frame.returnValue context.frame) result
  return {
    frame := context.frame
    body := Frame.enclose context.frame (Stm.block (statements ++ [last])) }

def lowerStatements (functions : FunctionTable) (maker : FrameMaker F) (context : Context F) :
    List Stmt → LowerM (Context F × List Stm × List (Fragment F))
  | [] => return (context, [], [])
  | .assign assign :: rest => do
      -- A literal is assigned by naming static data that holds it, which takes no code.
      match assign.value.literal? with
      | some value =>
          let label ← LowerM.draw Supply.freshLabel
          let next := context.bindConstant assign.name (.mem (.name label))
          let (final, statements, fragments) ← lowerStatements functions maker next rest
          return (final, .nop :: statements, .data { label, values := [value] } :: fragments)
      | none =>
          let (next, lowered) ← lowerAssign functions context assign
          let (final, statements, fragments) ← lowerStatements functions maker next rest
          return (final, lowered.toStm :: statements, fragments)
  | .declare declaration :: rest => do
      let procedure ← lowerDeclaration functions maker context.locals declaration
      let (final, statements, fragments) ← lowerStatements functions maker context rest
      return (final, .nop :: statements, .procedure procedure :: fragments)

def lowerPrint (functions : FunctionTable) (context : Context F) (exp : Expr) :
    LowerM Lowered := do
  let value ← LowerM.ofExcept (← lowerExpr (context.scope functions) exp).toExp
  return .value (.call Label.print [value])

def lowerProgram (maker : FrameMaker F) (resolved : Resolved) : LowerM (List (Fragment F)) := do
  let functions := resolved.functions
  let frame ← LowerM.draw (maker Label.main 0)
  let (context, statements, fragments) ←
    lowerStatements functions maker { frame } resolved.program.statements
  let last := (← lowerPrint functions context resolved.program.print.exp).toStm
  let main : Procedure F := {
    frame := context.frame
    body := Frame.enclose context.frame (Stm.block (statements ++ [last])) }
  return fragments ++ [.procedure main]

end TreeCompiler.Lower
