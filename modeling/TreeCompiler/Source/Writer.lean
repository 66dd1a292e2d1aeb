import TreeCompiler.Json.Value
import TreeCompiler.Source.Tree

set_option autoImplicit false

namespace TreeCompiler.Source

open Json (Value)

def Span.json (span : Span) : Value :=
  .object [("start", .number span.start.toNat), ("end", .number span.stop.toNat)]

def Ty.name : Ty → String
  | integer => "Integer"
  | boolean => "Boolean"
  | unknown => "Unknown"

def BinaryOp.name : BinaryOp → String
  | lessThan => "LessThan"
  | plus => "Plus"
  | minus => "Minus"
  | times => "Times"

def placed (kind : String) (payload : Value) (span : Span) : Value :=
  .object [("kind", .object [(kind, payload)]), ("span", span.json)]

mutual

def Expr.json : Expr → Value
  | .literal value span => placed "IntegerLiteral" (.number value.toInt) span
  | .ident name span => placed "Identifier" (.string name) span
  | .binary op left right span => placed op.name (.list [left.json, right.json]) span
  | .negation operand span => placed "Not" operand.json span
  | .conditional guard thenBranch elseBranch span =>
      placed "Conditional"
        (.object [
          ("cond", guard.json),
          ("then_branch", thenBranch.json),
          ("else_branch", elseBranch.json)])
        span
  | .call callee args span =>
      placed "Call" (.object [("callee", .string callee), ("args", .list (Expr.jsonOfAll args))]) span

def Expr.jsonOfAll : List Expr → List Value
  | [] => []
  | first :: rest => first.json :: Expr.jsonOfAll rest

end

def Assign.json (assign : Assign) : Value :=
  .object [
    ("name", .string assign.name),
    ("value", assign.value.json),
    ("span", assign.span.json)]

def Param.json (param : Param) : Value :=
  .object [
    ("ty", .string param.type.name),
    ("name", .string param.name),
    ("span", param.span.json)]

def Declaration.json (declaration : Declaration) : Value :=
  .object [
    ("name", .string declaration.name),
    ("return_type", .string declaration.returnType.name),
    ("params", .list (declaration.params.map Param.json)),
    ("body", .list (declaration.body.map Assign.json)),
    ("return_expr", declaration.result.json),
    ("span", declaration.span.json)]

def Stmt.json : Stmt → Value
  | assign a => .object [("Assign", a.json)]
  | declare d => .object [("Function", d.json)]

def Print.json (print : Print) : Value :=
  .object [("exp", print.exp.json), ("span", print.span.json)]

def Program.json (program : Program) : Value :=
  .object [
    ("statements", .list (program.statements.map Stmt.json)),
    ("print", program.print.json),
    ("span", program.span.json)]

end TreeCompiler.Source
