import TreeCompiler.Bindings
import TreeCompiler.Source.Tree
import TreeCompiler.Resolve.Report

set_option autoImplicit false

namespace TreeCompiler.Resolve

open Source

structure FunctionScope where
  name : String
  span : Span
  scope : Bindings Ty
  deriving DecidableEq

structure Variables where
  globals : Bindings Ty
  functions : List FunctionScope
  deriving DecidableEq

def Variables.function? (scopes : Variables) (name : String) : Option (Bindings Ty) :=
  (scopes.functions.find? (·.name = name)).map FunctionScope.scope

mutual

def unboundIn (scope : Bindings Ty) : Expr → List Report
  | .literal _ _ => []
  | .ident name span => if scope.contains name then [] else [.undefined name span]
  | .binary _ left right _ => unboundIn scope left ++ unboundIn scope right
  | .negation operand _ => unboundIn scope operand
  | .conditional guard thenBranch elseBranch _ =>
      unboundIn scope guard ++ unboundIn scope thenBranch ++ unboundIn scope elseBranch
  | .call _ args _ => unboundInAll scope args

def unboundInAll (scope : Bindings Ty) : List Expr → List Report
  | [] => []
  | first :: rest => unboundIn scope first ++ unboundInAll scope rest

end

def scopeAfter (scope : Bindings Ty) (assign : Assign) : Bindings Ty :=
  -- A name that is bound keeps the type it has.
  if scope.contains assign.name then scope else scope.insert assign.name .unknown

def resolveAssigns (scope : Bindings Ty) : List Assign → Bindings Ty × List Report
  | [] => (scope, [])
  | assign :: rest =>
      let (final, reports) := resolveAssigns (scopeAfter scope assign) rest
      (final, unboundIn scope assign.value ++ reports)

def resolveParams (scope : Bindings Ty) : List Param → Bindings Ty × List Report
  -- Of a repeated name the first parameter counts.
  | [] => (scope, [])
  | param :: rest =>
      match scope.insertNew param.name param.type with
      | .ok extended => resolveParams extended rest
      | .error duplicate =>
          let (final, reports) := resolveParams scope rest
          (final, .duplicate duplicate.name param.span :: reports)

def resolveDeclaration (declaration : Declaration) : FunctionScope × List Report :=
  -- A function starts from its parameters alone: it does not see the variables around it.
  let (params, paramReports) := resolveParams .empty declaration.params
  let (scope, bodyReports) := resolveAssigns params declaration.body
  ({ name := declaration.name, span := declaration.span, scope },
    paramReports ++ bodyReports ++ unboundIn scope declaration.result)

def resolveStatements (globals : Bindings Ty) : List Stmt → Variables × List Report
  | [] => ({ globals, functions := [] }, [])
  | .assign assign :: rest =>
      let (scopes, reports) := resolveStatements (scopeAfter globals assign) rest
      (scopes, unboundIn globals assign.value ++ reports)
  | .declare declaration :: rest =>
      let (function, functionReports) := resolveDeclaration declaration
      let (scopes, reports) := resolveStatements globals rest
      ({ scopes with functions := function :: scopes.functions }, functionReports ++ reports)

def resolveVariables (program : Program) : Variables × List Report :=
  let (scopes, reports) := resolveStatements .empty program.statements
  (scopes, reports ++ unboundIn scopes.globals program.print.exp)

end TreeCompiler.Resolve
