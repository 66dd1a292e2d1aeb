set_option autoImplicit false

namespace TreeCompiler.Diagnostic

inductive Code
  -- The first digit of a code's text names the phase that raises it.
  | invalidOption
  | duplicateDefinition
  | undefinedIdentifier
  | internalError
  | tooManyErrors
  deriving DecidableEq, Repr

namespace Code

def all : List Code :=
  [invalidOption, duplicateDefinition, undefinedIdentifier, internalError, tooManyErrors]

def text : Code → String
  | invalidOption => "E0001"
  | duplicateDefinition => "E2001"
  | undefinedIdentifier => "E2002"
  | internalError => "E9001"
  | tooManyErrors => "E9002"

def description : Code → String
  | invalidOption => "invalid compiler option"
  | duplicateDefinition => "duplicate definition"
  | undefinedIdentifier => "undefined identifier"
  | internalError => "internal translation error"
  | tooManyErrors => "too many errors"

def isInternal : Code → Bool
  | internalError | tooManyErrors => true
  | _ => false

def ofText? (written : String) : Option Code :=
  -- Only ASCII letters have a case here.
  all.find? fun code => code.text.toList.map Char.toLower == written.toList.map Char.toLower

@[simp] theorem mem_all (code : Code) : code ∈ all := by
  cases code <;> decide

end Code

end TreeCompiler.Diagnostic
