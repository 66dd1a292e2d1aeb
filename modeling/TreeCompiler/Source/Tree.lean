import TreeCompiler.Source.Span

set_option autoImplicit false

namespace TreeCompiler.Source

inductive Ty
  | integer
  | boolean
  | unknown
  deriving DecidableEq, Repr

inductive BinaryOp
  | lessThan
  | plus
  | minus
  | times
  deriving DecidableEq, Repr

inductive Expr
  | literal (value : Int64) (span : Span := {})
  | ident (name : String) (span : Span := {})
  | binary (op : BinaryOp) (left right : Expr) (span : Span := {})
  | negation (operand : Expr) (span : Span := {})
  | conditional (guard thenBranch elseBranch : Expr) (span : Span := {})
  | call (callee : String) (args : List Expr) (span : Span := {})

namespace Expr

def span : Expr → Span
  | literal _ span
  | ident _ span
  | binary _ _ _ span
  | negation _ span
  | conditional _ _ _ span
  | call _ _ span => span

def withSpan (span : Span) : Expr → Expr
  | literal value _ => literal value span
  | ident name _ => ident name span
  | binary op left right _ => binary op left right span
  | negation operand _ => negation operand span
  | conditional guard thenBranch elseBranch _ => conditional guard thenBranch elseBranch span
  | call callee args _ => call callee args span

def literal? : Expr → Option Int64
  | literal value _ => some value
  | _ => none

mutual

def same : Expr → Expr → Bool
  | literal value span, literal value' span' => value = value' && span = span'
  | ident name span, ident name' span' => name = name' && span = span'
  | binary op left right span, binary op' left' right' span' =>
      op = op' && left.same left' && right.same right' && span = span'
  | negation operand span, negation operand' span' => operand.same operand' && span = span'
  | conditional guard thenBranch elseBranch span, conditional guard' thenBranch' elseBranch' span' =>
      guard.same guard' && thenBranch.same thenBranch' && elseBranch.same elseBranch' && span = span'
  | call callee args span, call callee' args' span' =>
      callee = callee' && sameAll args args' && span = span'
  | _, _ => false

def sameAll : List Expr → List Expr → Bool
  | [], [] => true
  | first :: rest, first' :: rest' => first.same first' && sameAll rest rest'
  | _, _ => false

end

mutual

theorem same_iff : (first second : Expr) → (first.same second ↔ first = second)
  | literal .., second => by cases second <;> simp [same]
  | ident .., second => by cases second <;> simp [same]
  | binary _ left right _, second => by
      cases second <;> simp [same, same_iff left, same_iff right, and_assoc]
  | negation operand _, second => by cases second <;> simp [same, same_iff operand]
  | conditional guard thenBranch elseBranch _, second => by
      cases second <;>
        simp [same, same_iff guard, same_iff thenBranch, same_iff elseBranch, and_assoc]
  | call _ args _, second => by cases second <;> simp [same, sameAll_iff args, and_assoc]

theorem sameAll_iff : (first second : List Expr) → (sameAll first second ↔ first = second)
  | [], second => by cases second <;> simp [sameAll]
  | head :: tail, second => by
      cases second <;> simp [sameAll, same_iff head, sameAll_iff tail]

end

instance : DecidableEq Expr := fun first second =>
  decidable_of_iff _ (same_iff first second)

end Expr

structure Assign where
  name : String
  value : Expr
  span : Span := {}
  deriving DecidableEq

structure Param where
  type : Ty
  name : String
  span : Span := {}
  deriving DecidableEq

structure Declaration where
  name : String
  returnType : Ty
  params : List Param
  body : List Assign
  result : Expr
  span : Span := {}
  deriving DecidableEq

inductive Stmt
  | assign (assign : Assign)
  | declare (declaration : Declaration)
  deriving DecidableEq

def Stmt.span : Stmt → Span
  | assign a => a.span
  | declare d => d.span

def Stmt.declaration? : Stmt → Option Declaration
  | assign _ => none
  | declare d => some d

structure Print where
  exp : Expr
  span : Span := {}
  deriving DecidableEq

structure Program where
  statements : List Stmt
  print : Print
  span : Span := {}
  deriving DecidableEq

def Program.declarations (program : Program) : List Declaration :=
  program.statements.filterMap Stmt.declaration?

end TreeCompiler.Source
