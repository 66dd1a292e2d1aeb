import Mathlib.Tactic.Tauto
import TreeCompiler.Source.Tree

set_option autoImplicit false

namespace TreeCompiler.Source

mutual

def Expr.identifiers : Expr → List String
  | .literal _ _ => []
  | .ident name _ => [name]
  | .binary _ left right _ => left.identifiers ++ right.identifiers
  | .negation operand _ => operand.identifiers
  | .conditional guard thenBranch elseBranch _ =>
      guard.identifiers ++ thenBranch.identifiers ++ elseBranch.identifiers
  | .call _ args _ => Expr.identifiersOfAll args

def Expr.identifiersOfAll : List Expr → List String
  | [] => []
  | first :: rest => first.identifiers ++ Expr.identifiersOfAll rest

end

mutual

def Expr.callees : Expr → List String
  | .literal _ _ => []
  | .ident _ _ => []
  | .binary _ left right _ => left.callees ++ right.callees
  | .negation operand _ => operand.callees
  | .conditional guard thenBranch elseBranch _ =>
      guard.callees ++ thenBranch.callees ++ elseBranch.callees
  | .call callee args _ => callee :: Expr.calleesOfAll args

def Expr.calleesOfAll : List Expr → List String
  | [] => []
  | first :: rest => first.callees ++ Expr.calleesOfAll rest

end

def Declaration.paramNames (declaration : Declaration) : List String :=
  declaration.params.map Param.name

def Declaration.callees (declaration : Declaration) : List String :=
  declaration.body.flatMap (fun assign => assign.value.callees) ++ declaration.result.callees

def Stmt.assign? : Stmt → Option Assign
  | assign a => some a
  | declare _ => none

def Stmt.callees : Stmt → List String
  | assign a => a.value.callees
  | declare d => d.callees

def Program.assigns (program : Program) : List Assign :=
  program.statements.filterMap Stmt.assign?

def Program.functionNames (program : Program) : List String :=
  program.declarations.map Declaration.name

def Program.callees (program : Program) : List String :=
  program.statements.flatMap Stmt.callees ++ program.print.exp.callees

/--
Each value is made of names bound before it: they are among the given ones, or a strictly earlier
assignment binds them.
-/
def BoundInOrder (names : List String) (assigns : List Assign) : Prop :=
  ∀ before assign after, assigns = before ++ assign :: after →
    ∀ name ∈ assign.value.identifiers, name ∈ names ∨ name ∈ before.map Assign.name

@[simp] theorem boundInOrder_nil (names : List String) : BoundInOrder names [] := by
  intro before assign after split
  simp at split

@[simp] theorem boundInOrder_cons (names : List String) (assign : Assign) (rest : List Assign) :
    BoundInOrder names (assign :: rest) ↔
      (∀ name ∈ assign.value.identifiers, name ∈ names) ∧
        BoundInOrder (assign.name :: names) rest := by
  constructor
  · intro bound
    constructor
    · intro name occurs
      simpa using bound [] assign rest rfl name occurs
    · intro before later after split name occurs
      have earlier := bound (assign :: before) later after (by simp [split]) name occurs
      simp only [List.map_cons, List.mem_cons] at earlier ⊢
      tauto
  · rintro ⟨first, others⟩ before later after split name occurs
    cases before with
    | nil =>
        obtain ⟨rfl, rfl⟩ : assign = later ∧ rest = after := by simpa using split
        exact .inl (first name occurs)
    | cons head before =>
        obtain ⟨rfl, rest_split⟩ : assign = head ∧ rest = before ++ later :: after := by
          simpa using split
        have earlier := others before later after rest_split name occurs
        simp only [List.map_cons, List.mem_cons] at earlier ⊢
        tauto

theorem mem_names_cons {names : List String} {assign : Assign} {rest : List Assign}
    {name : String} :
    name ∈ names ++ (assign :: rest).map Assign.name ↔
      name ∈ assign.name :: names ++ rest.map Assign.name := by
  simp only [List.map_cons, List.cons_append, List.mem_append, List.mem_cons]
  tauto

structure Declaration.WellScoped (declaration : Declaration) : Prop where
  params : declaration.paramNames.Nodup
  body : BoundInOrder declaration.paramNames declaration.body
  result : ∀ name ∈ declaration.result.identifiers,
    name ∈ declaration.paramNames ∨ name ∈ declaration.body.map Assign.name

/--
Every name of a program stands for something. Functions see their own parameters and assignments
only, but may call one another in any order.
-/
structure Program.WellScoped (program : Program) : Prop where
  values : BoundInOrder [] program.assigns
  print : ∀ name ∈ program.print.exp.identifiers, name ∈ program.assigns.map Assign.name
  declarations : ∀ declaration ∈ program.declarations, declaration.WellScoped
  functions : program.functionNames.Nodup
  calls : ∀ callee ∈ program.callees, callee ∈ program.functionNames

end TreeCompiler.Source
