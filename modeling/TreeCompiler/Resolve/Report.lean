import TreeCompiler.Diagnostic.Basic

set_option autoImplicit false

namespace TreeCompiler.Resolve

open Source (Span)

inductive Report
  | duplicate (name : String) (span : Span)
  | undefined (name : String) (span : Span)
  deriving DecidableEq, Repr

def Report.diagnostic : Report → Diagnostic
  | duplicate name span => Diagnostic.duplicateDefinition name span
  | undefined name span => Diagnostic.undefinedIdentifier name span

@[simp] theorem Report.isError_diagnostic (report : Report) : report.diagnostic.isError := by
  cases report <;> rfl

end TreeCompiler.Resolve
