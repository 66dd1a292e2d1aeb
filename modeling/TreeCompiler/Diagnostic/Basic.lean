import TreeCompiler.Diagnostic.Code
import TreeCompiler.Source.Span

set_option autoImplicit false

namespace TreeCompiler

open Source (Span)

namespace Diagnostic

inductive Severity
  | error
  | warning
  | note
  deriving DecidableEq, Repr

def Severity.text : Severity → String
  | error => "error"
  | warning => "warning"
  | note => "note"

structure Highlight where
  span : Span
  message : String
  isPrimary : Bool := true
  deriving DecidableEq, Repr

def Highlight.text (highlight : Highlight) : String :=
  (if highlight.isPrimary then "  --> " else "      ")
    ++ highlight.span.text ++ ": " ++ highlight.message

end Diagnostic

structure Diagnostic where
  code : Diagnostic.Code
  severity : Diagnostic.Severity
  message : String := ""
  highlights : List Diagnostic.Highlight := []
  notes : List String := []
  deriving DecidableEq, Repr

namespace Diagnostic

def isError (diagnostic : Diagnostic) : Bool := diagnostic.severity = .error

def primarySpan? (diagnostic : Diagnostic) : Option Span :=
  (diagnostic.highlights.find? Highlight.isPrimary).map Highlight.span

def precedes (first second : Diagnostic) : Bool :=
  match first.primarySpan?, second.primarySpan? with
  | some span, some span' => span.precedes span'
  | none, some _ => false
  | _, none => true

def text (diagnostic : Diagnostic) : String :=
  let head := diagnostic.severity.text ++ " [" ++ diagnostic.code.text ++ "]: " ++ diagnostic.message
  let highlights := diagnostic.highlights.map fun highlight => "\n" ++ highlight.text
  let notes := diagnostic.notes.map fun note => "\n  = note: " ++ note
  head ++ String.join highlights ++ String.join notes

def duplicateDefinition (name : String) (span : Span) : Diagnostic where
  code := .duplicateDefinition
  severity := .error
  message := "`" ++ name ++ "` is defined more than once"
  highlights := [{ span, message := "duplicate definition" }]
  notes := ["the later definition is ignored"]

def undefinedIdentifier (name : String) (span : Span) : Diagnostic where
  code := .undefinedIdentifier
  severity := .error
  message := "cannot find `" ++ name ++ "` in this scope"
  highlights := [{ span, message := "not found in this scope" }]

def internalError (message : String) : Diagnostic where
  code := .internalError
  severity := .error
  message := "internal compiler error: " ++ message
  notes := ["translation ran on a tree the resolution passes should have rejected"]

def invalidOption (message : String) : Diagnostic where
  code := .invalidOption
  severity := .error
  message := message

def tooManyErrors (limit dropped : Nat) : Diagnostic where
  code := .tooManyErrors
  severity := .warning
  message :=
    "stopped reporting after " ++ limit.repr ++ " errors (" ++ dropped.repr ++ " more not shown)"
  notes := ["raise the error limit to see every error"]

end Diagnostic

end TreeCompiler
