import TreeCompiler.Code.Supply

set_option autoImplicit false

namespace TreeCompiler.Code

inductive Arithmetic
  | plus
  | minus
  | times
  deriving DecidableEq, Repr

inductive Relation
  | equal
  | notEqual
  | less
  | lessEqual
  | greater
  | greaterEqual
  deriving DecidableEq, Repr

mutual

inductive Exp
  | const (value : Int64)
  | name (label : Label)
  | temp (temp : Temp)
  | binop (op : Arithmetic) (left right : Exp)
  | mem (address : Exp)
  | call (function : Label) (args : List Exp)
  | eseq (effect : Stm) (value : Exp)

inductive Stm
  | move (target source : Exp)
  | exp (value : Exp)
  | jump (target : Label)
  | cjump (relation : Relation) (left right : Exp) (ifTrue ifFalse : Label)
  -- A conditional move writes only where the relation holds, and never branches.
  | cmove (relation : Relation) (left right target source : Exp)
  | seq (first second : Stm)
  | label (label : Label)
  | nop

end

def Exp.isPure : Exp → Bool
  | const _ | name _ | temp _ => true
  | binop _ left right => left.isPure && right.isPure
  | mem address => address.isPure
  | call _ _ | eseq _ _ => false

namespace Stm

def followedBy : Stm → Stm → Stm
  | nop, second => second
  | first, nop => first
  | first, second => seq first second

def block (statements : List Stm) : Stm := statements.foldr followedBy nop

def linear : Stm → List Stm
  | seq first second => first.linear ++ second.linear
  | statement => [statement]

@[simp] theorem nop_followedBy (statement : Stm) : nop.followedBy statement = statement := by
  cases statement <;> rfl

@[simp] theorem followedBy_nop (statement : Stm) : statement.followedBy nop = statement := by
  cases statement <;> rfl

@[simp] theorem block_nil : block [] = nop := rfl

@[simp] theorem block_cons (first : Stm) (rest : List Stm) :
    block (first :: rest) = first.followedBy (block rest) := rfl

end Stm

inductive Node
  | exp (exp : Exp)
  | stm (stm : Stm)

def Node.isExp : Node → Bool
  | exp _ => true
  | stm _ => false

mutual

def Exp.nodes : Exp → List Node
  | .const value => [.exp (.const value)]
  | .name label => [.exp (.name label)]
  | .temp temp => [.exp (.temp temp)]
  | .binop op left right => .exp (.binop op left right) :: (left.nodes ++ right.nodes)
  | .mem address => .exp (.mem address) :: address.nodes
  | .call function args => .exp (.call function args) :: Exp.nodesOfAll args
  | .eseq effect value => .exp (.eseq effect value) :: (effect.nodes ++ value.nodes)

def Exp.nodesOfAll : List Exp → List Node
  | [] => []
  | first :: rest => first.nodes ++ Exp.nodesOfAll rest

def Stm.nodes : Stm → List Node
  | .move target source => .stm (.move target source) :: (target.nodes ++ source.nodes)
  | .exp value => .stm (.exp value) :: value.nodes
  | .jump target => [.stm (.jump target)]
  | .cjump relation left right ifTrue ifFalse =>
      .stm (.cjump relation left right ifTrue ifFalse) :: (left.nodes ++ right.nodes)
  -- The operands of a relation come before the parts of a move.
  | .cmove relation left right target source =>
      .stm (.cmove relation left right target source)
        :: (left.nodes ++ right.nodes ++ target.nodes ++ source.nodes)
  | .seq first second => .stm (.seq first second) :: (first.nodes ++ second.nodes)
  | .label label => [.stm (.label label)]
  | .nop => [.stm .nop]

end

end TreeCompiler.Code
