import TreeCompiler.Bindings
import TreeCompiler.Proofs.Scoping

set_option autoImplicit false

namespace TreeCompiler.Source

abbrev FunctionValues := String → List Int64 → Option Int64

def BinaryOp.apply : BinaryOp → Int64 → Int64 → Int64
  | lessThan, left, right => if left < right then 1 else 0
  | plus, left, right => left + right
  | minus, left, right => left - right
  | times, left, right => left * right

mutual

/-- Only one branch of a conditional is evaluated: the first where the guard is exactly one. -/
def Expr.eval (functions : FunctionValues) (env : Bindings Int64) : Expr → Option Int64
  | .literal value _ => some value
  | .ident name _ => env.get? name
  | .binary op left right _ => do
      let leftValue ← left.eval functions env
      let rightValue ← right.eval functions env
      return op.apply leftValue rightValue
  | .negation operand _ => do
      let value ← operand.eval functions env
      return 1 - value
  | .conditional guard thenBranch elseBranch _ => do
      let value ← guard.eval functions env
      if value = 1 then
        thenBranch.eval functions env
      else
        elseBranch.eval functions env
  | .call callee args _ => do
      let values ← Expr.evalAll functions env args
      functions callee values

def Expr.evalAll (functions : FunctionValues) (env : Bindings Int64) :
    List Expr → Option (List Int64)
  | [] => some []
  | first :: rest => do
      let value ← first.eval functions env
      let values ← Expr.evalAll functions env rest
      return value :: values

end

def evalAssigns (functions : FunctionValues) (env : Bindings Int64) :
    List Assign → Option (Bindings Int64)
  | [] => some env
  | assign :: rest => do
      let value ← assign.value.eval functions env
      evalAssigns functions (env.insert assign.name value) rest

def bindArgs (env : Bindings Int64) : List Param → List Int64 → Option (Bindings Int64)
  | [], [] => some env
  | param :: params, value :: values => bindArgs (env.insert param.name value) params values
  | _, _ => none

def Declaration.apply (functions : FunctionValues) (declaration : Declaration)
    (args : List Int64) : Option Int64 := do
  -- The body sees its parameters, and nothing of where it is called.
  let params ← bindArgs .empty declaration.params args
  let env ← evalAssigns functions params declaration.body
  declaration.result.eval functions env

namespace Program

/-- The values of the functions of a program, where no more calls are nested than the depth. -/
def functionValues (program : Program) : Nat → FunctionValues
  | 0 => fun _ _ => none
  | depth + 1 => fun callee args => do
      let declaration ← program.declarations.find? fun declaration => declaration.name = callee
      declaration.apply (program.functionValues depth) args

def evalWithin (program : Program) (depth : Nat) : Option Int64 := do
  let env ← evalAssigns (program.functionValues depth) .empty program.assigns
  program.print.exp.eval (program.functionValues depth) env

def EvaluatesTo (program : Program) (value : Int64) : Prop :=
  ∃ depth, program.evalWithin depth = some value

end Program

end TreeCompiler.Source
