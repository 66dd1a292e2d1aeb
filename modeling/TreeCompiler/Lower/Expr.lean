import TreeCompiler.Lower.Basic
import TreeCompiler.Source.Tree

set_option autoImplicit false

namespace TreeCompiler.Lower

open Code Source

structure Scope where
  value? : String → Option Exp
  declares : String → Bool

def arithmetic? : BinaryOp → Option Arithmetic
  | .lessThan => none
  | .plus => some .plus
  | .minus => some .minus
  | .times => some .times

def comparison (left right : Exp) (result : Temp) : Stm :=
  Stm.followedBy (.move (.temp result) (.const 0))
    (.cmove .less left right (.temp result) (.const Lowered.truth))

structure Joints where
  thenLabel : Label
  elseLabel : Label
  joinLabel : Label

def freshJoints : StateM Supply Joints := do
  let thenLabel ← Supply.freshLabel
  let elseLabel ← Supply.freshLabel
  let joinLabel ← Supply.freshLabel
  return { thenLabel, elseLabel, joinLabel }

def diamond (joints : Joints) (branch : Stm) (thenValue elseValue : Exp) (result : Temp) : Stm :=
  Stm.block [
    branch,
    .label joints.elseLabel,
    .move (.temp result) elseValue,
    .jump joints.joinLabel,
    .label joints.thenLabel,
    .move (.temp result) thenValue,
    .label joints.joinLabel]

mutual

def lowerExpr (scope : Scope) : Expr → LowerM Lowered
  | .literal value _ => return .value (.const value)
  | .ident name span =>
      match scope.value? name with
      | some exp => return .value exp
      | none => throw (.unbound name span)
  -- Names are drawn for a comparison after its operands, and for a conditional before its parts.
  | .binary op left right _ => do
      let leftValue ← LowerM.ofExcept (← lowerExpr scope left).toExp
      let rightValue ← LowerM.ofExcept (← lowerExpr scope right).toExp
      match arithmetic? op with
      | some instruction => return .value (.binop instruction leftValue rightValue)
      | none =>
          let result ← LowerM.draw Supply.freshTemp
          return .value (.eseq (comparison leftValue rightValue result) (.temp result))
  | .negation operand _ => do
      let value ← LowerM.ofExcept (← lowerExpr scope operand).toExp
      return .value (.binop .minus (.const Lowered.truth) value)
  | .conditional guard thenBranch elseBranch _ => do
      let joints ← LowerM.draw freshJoints
      let result ← LowerM.draw Supply.freshTemp
      let branch ← LowerM.ofExcept
        ((← lowerExpr scope guard).toBranch joints.thenLabel joints.elseLabel)
      let thenValue ← LowerM.ofExcept (← lowerExpr scope thenBranch).toExp
      let elseValue ← LowerM.ofExcept (← lowerExpr scope elseBranch).toExp
      return .value (.eseq (diamond joints branch thenValue elseValue result) (.temp result))
  | .call callee args span =>
      if scope.declares callee then do
        return .value (.call (Label.function callee) (← lowerArgs scope args))
      else
        throw (.unknownFunction callee span)

def lowerArgs (scope : Scope) : List Expr → LowerM (List Exp)
  | [] => return []
  | first :: rest => do
      let value ← LowerM.ofExcept (← lowerExpr scope first).toExp
      return value :: (← lowerArgs scope rest)

end

end TreeCompiler.Lower
