import TreeCompiler.Code.Tree

set_option autoImplicit false

namespace TreeCompiler.Code

def Arithmetic.text : Arithmetic → String
  | plus => "PLUS"
  | minus => "MINUS"
  | times => "MUL"

def Relation.text : Relation → String
  | equal => "EQ"
  | notEqual => "NE"
  | less => "LT"
  | lessEqual => "LE"
  | greater => "GT"
  | greaterEqual => "GE"

def enclosed (keyword first : String) (rest : List String) : String :=
  keyword ++ "(" ++ first ++ String.join (rest.map (", " ++ ·)) ++ ")"

mutual

def Exp.text : Exp → String
  | .const value => "CONST " ++ value.toInt.repr
  | .name label => "NAME " ++ label.text
  | .temp temp => "TEMP " ++ temp.text
  | .binop op left right => enclosed "BINOP" op.text [left.text, right.text]
  | .mem address => enclosed "MEM" address.text []
  | .call function args => enclosed "CALL" function.text (Exp.textsOfAll args)
  | .eseq effect value => enclosed "ESEQ" effect.text [value.text]

def Exp.textsOfAll : List Exp → List String
  | [] => []
  | first :: rest => first.text :: Exp.textsOfAll rest

def Stm.text : Stm → String
  | .move target source => enclosed "MOVE" target.text [source.text]
  | .exp value => enclosed "EXP" value.text []
  | .jump target => "JUMP " ++ target.text
  | .cjump relation left right ifTrue ifFalse =>
      enclosed "CJUMP" relation.text [left.text, right.text, ifTrue.text, ifFalse.text]
  | .cmove relation left right target source =>
      enclosed "CMOVE" relation.text [left.text, right.text, target.text, source.text]
  | .seq first second => enclosed "SEQ" first.text [second.text]
  | .label label => "LABEL " ++ label.text
  | .nop => "NOP"

end

end TreeCompiler.Code
