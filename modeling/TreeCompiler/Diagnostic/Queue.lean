import TreeCompiler.Diagnostic.Basic

set_option autoImplicit false

namespace TreeCompiler.Diagnostic

/--
Diagnostics waiting to be shown. Past the limit, errors are counted and not kept; a limit of zero
keeps them all.
-/
structure Queue where
  kept : List Diagnostic := []
  errorCount : Nat := 0
  dropped : Nat := 0
  limit : Nat := 10
  deriving DecidableEq, Repr

inductive Reported
  | reported
  deriving DecidableEq, Repr

def Reported.text : Reported → String
  | reported => "error(s) emitted"

namespace Queue

def unlimited : Queue := { limit := 0 }

def hasErrors (queue : Queue) : Bool := queue.errorCount > 0

def keeps (queue : Queue) (diagnostic : Diagnostic) : Bool :=
  !diagnostic.isError || queue.limit = 0 || queue.errorCount - queue.dropped < queue.limit

def add (queue : Queue) (diagnostic : Diagnostic) : Queue where
  kept := if queue.keeps diagnostic then queue.kept ++ [diagnostic] else queue.kept
  errorCount := if diagnostic.isError then queue.errorCount + 1 else queue.errorCount
  dropped := if queue.keeps diagnostic then queue.dropped else queue.dropped + 1
  limit := queue.limit

def addAll (queue : Queue) (diagnostics : List Diagnostic) : Queue :=
  diagnostics.foldl add queue

def errorsSince (queue : Queue) (mark : Nat) : Option Reported :=
  if queue.errorCount - mark > 0 then some .reported else none

def presented (queue : Queue) : List Diagnostic :=
  queue.kept.mergeSort precedes
    ++ if queue.dropped > 0 then [tooManyErrors queue.limit queue.dropped] else []

def flush (queue : Queue) : List Diagnostic × Queue :=
  (queue.presented, { limit := queue.limit })

theorem addAll_append (queue : Queue) (first second : List Diagnostic) :
    queue.addAll (first ++ second) = (queue.addAll first).addAll second := by
  simp [addAll]

end Queue

end TreeCompiler.Diagnostic
