import TreeCompiler.Bindings
import TreeCompiler.Source.Tree
import TreeCompiler.Resolve.Report

set_option autoImplicit false

namespace TreeCompiler.Resolve

open Source

structure Registered where
  position : Nat
  declaration : Declaration
  deriving DecidableEq

structure FunctionTable where
  -- Of a repeated name the first declaration counts.
  registered : Bindings Registered
  deriving DecidableEq

namespace FunctionTable

def size (table : FunctionTable) : Nat := table.registered.size

def isEmpty (table : FunctionTable) : Bool := table.registered.isEmpty

def contains (table : FunctionTable) (name : String) : Bool := table.registered.contains name

def get? (table : FunctionTable) (name : String) : Option Declaration :=
  (table.registered.get? name).map Registered.declaration

def isRegistered (table : FunctionTable) (position : Nat) (declaration : Declaration) : Bool :=
  (table.registered.get? declaration.name).any (·.position = position)

def register (table : FunctionTable) (position : Nat) :
    List Declaration → FunctionTable × List Report
  | [] => (table, [])
  | declaration :: rest =>
      match table.registered.insertNew declaration.name { position, declaration } with
      | .ok registered => register { registered } (position + 1) rest
      | .error duplicate =>
          let (final, reports) := register table (position + 1) rest
          (final, .duplicate duplicate.name declaration.span :: reports)

mutual

def unknownCalls (table : FunctionTable) : Expr → List Report
  | .literal _ _ => []
  | .ident _ _ => []
  | .binary _ left right _ => table.unknownCalls left ++ table.unknownCalls right
  | .negation operand _ => table.unknownCalls operand
  | .conditional guard thenBranch elseBranch _ =>
      table.unknownCalls guard ++ table.unknownCalls thenBranch ++ table.unknownCalls elseBranch
  | .call callee args span =>
      (if table.contains callee then [] else [.undefined callee span])
        ++ table.unknownCallsInAll args

def unknownCallsInAll (table : FunctionTable) : List Expr → List Report
  | [] => []
  | first :: rest => table.unknownCalls first ++ table.unknownCallsInAll rest

end

def unknownCallsInBody (table : FunctionTable) (declaration : Declaration) : List Report :=
  declaration.body.flatMap (fun assign => table.unknownCalls assign.value)
    ++ table.unknownCalls declaration.result

def unknownCallsInStatements (table : FunctionTable) (position : Nat) : List Stmt → List Report
  | [] => []
  | .assign assign :: rest =>
      table.unknownCalls assign.value ++ table.unknownCallsInStatements position rest
  -- The body of a declaration that does not stand for its name is passed over.
  | .declare declaration :: rest =>
      (if table.isRegistered position declaration then table.unknownCallsInBody declaration else [])
        ++ table.unknownCallsInStatements (position + 1) rest

end FunctionTable

def resolveFunctions (program : Program) : FunctionTable × List Report :=
  -- A call may stand before the declaration that it names.
  let (table, reports) := FunctionTable.register ⟨.empty⟩ 0 program.declarations
  (table, reports ++ table.unknownCallsInStatements 0 program.statements
    ++ table.unknownCalls program.print.exp)

end TreeCompiler.Resolve
