import TreeCompiler.Diagnostic.Queue
import TreeCompiler.Resolve.Functions
import TreeCompiler.Resolve.Variables

set_option autoImplicit false

namespace TreeCompiler.Resolve

open Source Diagnostic

structure Resolved where
  program : Program
  scopes : Variables
  functions : FunctionTable
  deriving DecidableEq

def reports (program : Program) : List Report :=
  (resolveVariables program).2 ++ (resolveFunctions program).2

def resolve (program : Program) (queue : Queue) : Except Reported Resolved × Queue :=
  let final := queue.addAll ((reports program).map Report.diagnostic)
  match final.errorsSince queue.errorCount with
  | some guarantee => (.error guarantee, final)
  | none =>
      (.ok {
        program
        scopes := (resolveVariables program).1
        functions := (resolveFunctions program).1 }, final)

end TreeCompiler.Resolve
