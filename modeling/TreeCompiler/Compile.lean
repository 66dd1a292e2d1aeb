import TreeCompiler.Frame.Stack
import TreeCompiler.Lower.Program

set_option autoImplicit false

namespace TreeCompiler

open Source Code Resolve Lower

structure Options where
  wordSize : Int := 8
  errorLimit : Nat := 10
  deriving DecidableEq, Repr

inductive CompileError
  | wordSize (invalid : InvalidWordSize)
  | resolution (diagnostics : List Diagnostic)
  | internal (error : LowerError)
  deriving DecidableEq, Repr

def CompileError.message : CompileError → String
  | wordSize invalid => invalid.message
  | resolution diagnostics =>
      "resolution failed with " ++ (diagnostics.countP Diagnostic.isError).repr ++ " error(s)"
  | internal error => error.message

def CompileError.diagnostics : CompileError → List Diagnostic
  | wordSize invalid => [.invalidOption invalid.message]
  | resolution diagnostics => diagnostics
  | internal error => [.internalError error.message]

def lowerOnStack (wordSize : WordSize) (resolved : Resolved) :
    Except LowerError (List (Fragment StackFrame)) :=
  let (layout, supply) := (StackLayout.reserve wordSize).run {}
  match (lowerProgram layout.maker resolved).run supply with
  | .ok fragments _ => .ok fragments
  | .error error _ => .error error

def compile (program : Program) (options : Options := {}) :
    Except CompileError (List (Fragment StackFrame)) := do
  let wordSize ← (WordSize.check options.wordSize).mapError .wordSize
  match resolve program { limit := options.errorLimit } with
  | (.ok resolved, _) => (lowerOnStack wordSize resolved).mapError .internal
  | (.error _, queue) => .error (.resolution queue.presented)

end TreeCompiler
