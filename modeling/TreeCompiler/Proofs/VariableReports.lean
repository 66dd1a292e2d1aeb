import Mathlib.Data.List.Forall2
import TreeCompiler.Proofs.Acceptance
import TreeCompiler.Proofs.Earlier

set_option autoImplicit false

namespace TreeCompiler

open Source

mutual

def Source.Expr.uses : Expr → List (String × Span)
  | .literal _ _ => []
  | .ident name span => [(name, span)]
  | .binary _ left right _ => left.uses ++ right.uses
  | .negation operand _ => operand.uses
  | .conditional guard thenBranch elseBranch _ =>
      guard.uses ++ thenBranch.uses ++ elseBranch.uses
  | .call _ args _ => Expr.usesOfAll args

def Source.Expr.usesOfAll : List Expr → List (String × Span)
  | [] => []
  | first :: rest => first.uses ++ Expr.usesOfAll rest

end

def Source.assignedNames (statements : List Stmt) : List String :=
  (statements.filterMap Stmt.assign?).map Assign.name

@[simp] theorem Source.assignedNames_nil : assignedNames [] = [] := rfl

@[simp] theorem Source.assignedNames_assign (assign : Assign) (rest : List Stmt) :
    assignedNames (.assign assign :: rest) = assign.name :: assignedNames rest := rfl

@[simp] theorem Source.assignedNames_declare (declaration : Declaration) (rest : List Stmt) :
    assignedNames (.declare declaration :: rest) = assignedNames rest := rfl

def Source.Declaration.binding? (declaration : Declaration) (name : String) : Option Ty :=
  match declaration.params.find? (·.name = name) with
  | some param => some param.type
  | none => if name ∈ declaration.body.map Assign.name then some .unknown else none

namespace Resolve

def undefinedUses (names : List String) (uses : List (String × Span)) : List Report :=
  (uses.filter fun use => use.1 ∉ names).map fun use => .undefined use.1 use.2

@[simp] theorem undefinedUses_append (names : List String) (first second : List (String × Span)) :
    undefinedUses names (first ++ second) = undefinedUses names first ++ undefinedUses names second := by
  simp [undefinedUses]

def bodyReports (names : List String) (body : List Assign) : List Report :=
  (withEarlier body).flatMap fun (earlier, assign) =>
    undefinedUses (names ++ earlier.map Assign.name) assign.value.uses

def declarationReports (declaration : Declaration) : List Report :=
  (repeated Param.name [] declaration.params).map (fun param => .duplicate param.name param.span)
    ++ bodyReports declaration.paramNames declaration.body
    ++ undefinedUses (declaration.paramNames ++ declaration.body.map Assign.name)
        declaration.result.uses

def statementReports (names : List String) : Stmt → List Report
  | .assign assign => undefinedUses names assign.value.uses
  | .declare declaration => declarationReports declaration

def variableReports (program : Program) : List Report :=
  (withEarlier program.statements).flatMap (fun (earlier, statement) =>
      statementReports (assignedNames earlier) statement)
    ++ undefinedUses (assignedNames program.statements) program.print.exp.uses

variable {scope : Bindings Ty} {names : List String}

mutual

theorem unboundIn_eq (covers : scope.Covers names) : (expr : Expr) →
    unboundIn scope expr = undefinedUses names expr.uses
  | .literal _ _ => by simp [unboundIn, undefinedUses, Expr.uses]
  | .ident name _ => by
      by_cases bound : name ∈ names <;>
        simp [unboundIn, undefinedUses, Expr.uses, covers name, bound]
  | .binary _ left right _ => by
      simp [unboundIn, Expr.uses, unboundIn_eq covers left, unboundIn_eq covers right]
  | .negation operand _ => by
      simp [unboundIn, Expr.uses, unboundIn_eq covers operand]
  | .conditional guard thenBranch elseBranch _ => by
      simp [unboundIn, Expr.uses, unboundIn_eq covers guard, unboundIn_eq covers thenBranch,
        unboundIn_eq covers elseBranch]
  | .call _ args _ => by
      simp [unboundIn, Expr.uses, unboundInAll_eq covers args]

theorem unboundInAll_eq (covers : scope.Covers names) : (exprs : List Expr) →
    unboundInAll scope exprs = undefinedUses names (Expr.usesOfAll exprs)
  | [] => by simp [unboundInAll, undefinedUses, Expr.usesOfAll]
  | first :: rest => by
      simp [unboundInAll, Expr.usesOfAll, unboundIn_eq covers first, unboundInAll_eq covers rest]

end

theorem get?_scopeAfter (scope : Bindings Ty) (assign : Assign) (name : String) :
    (scopeAfter scope assign).get? name =
      (scope.get? name).or (if name = assign.name then some .unknown else none) := by
  unfold scopeAfter
  by_cases same : name = assign.name
  next =>
    subst same
    cases bound : scope.get? assign.name <;> simp [Bindings.contains, bound]
  next => split <;> simp [same]

theorem get?_resolveAssigns (scope : Bindings Ty) (assigns : List Assign) (name : String) :
    (resolveAssigns scope assigns).1.get? name =
      (scope.get? name).or (if name ∈ assigns.map Assign.name then some .unknown else none) := by
  induction assigns generalizing scope with
  | nil => simp [resolveAssigns]
  | cons assign rest ih =>
      simp only [resolveAssigns, ih, get?_scopeAfter, List.map_cons, List.mem_cons, Option.or_assoc]
      by_cases same : name = assign.name <;> simp [same]

theorem covers_scopeAfter_concat (covers : scope.Covers names) (assign : Assign) :
    (scopeAfter scope assign).Covers (names ++ [assign.name]) := by
  apply (covers_scopeAfter covers assign).of_mem
  simp [or_comm]

theorem reports_resolveAssigns (covers : scope.Covers names) (assigns : List Assign) :
    (resolveAssigns scope assigns).2 = bodyReports names assigns := by
  induction assigns generalizing scope names with
  | nil => rfl
  | cons assign rest ih =>
      have later := ih (covers_scopeAfter_concat covers assign)
      simp only [resolveAssigns, later, unboundIn_eq covers]
      simp [bodyReports, List.flatMap_map]

theorem get?_resolveParams (scope : Bindings Ty) (params : List Param) (name : String) :
    (resolveParams scope params).1.get? name =
      (scope.get? name).or ((params.find? (·.name = name)).map Param.type) := by
  induction params generalizing scope with
  | nil => simp [resolveParams]
  | cons param rest ih =>
      by_cases same : param.name = name
      next =>
        subst same
        cases bound : scope.get? param.name <;>
          simp [resolveParams, Bindings.insertNew, Bindings.contains, bound, ih]
      next =>
        have different : name ≠ param.name := Ne.symm same
        cases bound : scope.get? param.name <;>
          simp [resolveParams, Bindings.insertNew, Bindings.contains, bound, ih, same, different]

theorem reports_resolveParams (covers : scope.Covers names) (params : List Param) :
    (resolveParams scope params).2 =
      (repeated Param.name names params).map fun param => .duplicate param.name param.span := by
  induction params generalizing scope names with
  | nil => rfl
  | cons param rest ih =>
      rw [repeated_cons]
      by_cases known : param.name ∈ names
      next =>
        have same : scope.Covers (names ++ [param.name]) := covers.of_mem (by simp [known])
        simp [resolveParams, covers.insertNew_of_mem known, ih same, known]
      next =>
        have extended : (scope.insert param.name param.type).Covers (names ++ [param.name]) :=
          (covers.insert param.name param.type).of_mem (by simp [or_comm])
        simp [resolveParams, covers.insertNew_of_not_mem known, ih extended, known]

theorem get?_resolveDeclaration (declaration : Declaration) (name : String) :
    (resolveDeclaration declaration).1.scope.get? name = declaration.binding? name := by
  simp only [resolveDeclaration, get?_resolveAssigns, get?_resolveParams, Bindings.get?_empty,
    Option.none_or, Declaration.binding?]
  cases declaration.params.find? (·.name = name) <;> simp

theorem reports_resolveDeclaration (declaration : Declaration) :
    (resolveDeclaration declaration).2 = declarationReports declaration := by
  have params := covers_resolveParams Bindings.covers_empty declaration.params
  have final := covers_resolveAssigns params declaration.body
  rw [List.nil_append] at params final
  simp only [resolveDeclaration, declarationReports, reports_resolveParams Bindings.covers_empty,
    reports_resolveAssigns params, unboundIn_eq final]
  rfl

theorem get?_resolveStatements (globals : Bindings Ty) (statements : List Stmt) (name : String) :
    (resolveStatements globals statements).1.globals.get? name =
      (globals.get? name).or (if name ∈ assignedNames statements then some .unknown else none) := by
  induction statements generalizing globals with
  | nil => simp [resolveStatements]
  | cons statement rest ih =>
      cases statement with
      | assign assign =>
          simp only [resolveStatements, ih, get?_scopeAfter, Option.or_assoc]
          by_cases same : name = assign.name <;> simp [same]
      | declare declaration => exact ih globals

theorem functions_resolveStatements (globals : Bindings Ty) (statements : List Stmt) :
    (resolveStatements globals statements).1.functions =
      (statements.filterMap Stmt.declaration?).map fun declaration =>
        (resolveDeclaration declaration).1 := by
  induction statements generalizing globals with
  | nil => rfl
  | cons statement rest ih =>
      cases statement with
      | assign assign => exact ih (scopeAfter globals assign)
      | declare declaration => exact congrArg ((resolveDeclaration declaration).1 :: ·) (ih globals)

theorem reports_resolveStatements {globals : Bindings Ty} (covers : globals.Covers names)
    (statements : List Stmt) :
    (resolveStatements globals statements).2 =
      (withEarlier statements).flatMap fun (earlier, statement) =>
        statementReports (names ++ assignedNames earlier) statement := by
  induction statements generalizing globals names with
  | nil => rfl
  | cons statement rest ih =>
      cases statement with
      | assign assign =>
          have later := ih (covers_scopeAfter_concat covers assign)
          simp only [resolveStatements, later, unboundIn_eq covers]
          simp [List.flatMap_map, statementReports]
      | declare declaration =>
          simp only [resolveStatements, ih covers, reports_resolveDeclaration]
          simp [List.flatMap_map, statementReports]

theorem reports_resolveVariables (program : Program) :
    (resolveVariables program).2 = variableReports program := by
  have globals := covers_resolveStatements Bindings.covers_empty program.statements
  have reports := reports_resolveStatements Bindings.covers_empty program.statements
  simp only [List.nil_append] at globals reports
  simp only [resolveVariables, variableReports, reports, unboundIn_eq globals]
  rfl

theorem resolveVariables_exact (program : Program) :
    (∀ name, (resolveVariables program).1.globals.get? name =
        if name ∈ assignedNames program.statements then some .unknown else none) ∧
      List.Forall₂ (fun declaration function =>
          function.name = declaration.name ∧ function.span = declaration.span ∧
            ∀ name, function.scope.get? name = declaration.binding? name)
        program.declarations (resolveVariables program).1.functions ∧
      (resolveVariables program).2 = variableReports program := by
  have scopes : (resolveVariables program).1 = (resolveStatements .empty program.statements).1 := rfl
  refine ⟨fun name => ?_, ?_, reports_resolveVariables program⟩
  · rw [scopes, get?_resolveStatements, Bindings.get?_empty, Option.none_or]
  · rw [scopes, functions_resolveStatements, List.forall₂_map_right_iff]
    exact List.forall₂_same.mpr fun declaration _ =>
      ⟨rfl, rfl, get?_resolveDeclaration declaration⟩

end Resolve

end TreeCompiler
