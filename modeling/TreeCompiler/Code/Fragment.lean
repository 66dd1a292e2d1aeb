import TreeCompiler.Code.Flattening
import TreeCompiler.Code.Text
import TreeCompiler.Frame.Basic

set_option autoImplicit false

namespace TreeCompiler.Code

structure Procedure (F : Type) where
  frame : F
  body : Stm

structure StaticData where
  label : Label
  values : List Int64
  deriving DecidableEq, Repr

inductive Fragment (F : Type)
  | procedure (procedure : Procedure F)
  | data (data : StaticData)

variable {F : Type}

def Fragment.procedure? : Fragment F → Option (Procedure F)
  | procedure p => some p
  | data _ => none

def Fragment.data? : Fragment F → Option StaticData
  | procedure _ => none
  | data d => some d

def findProcedure? [Frame F] (label : Label) (fragments : List (Fragment F)) :
    Option (Procedure F) :=
  (fragments.filterMap Fragment.procedure?).find? fun p => Frame.label p.frame = label

def Procedure.text [Frame F] (procedure : Procedure F) : String :=
  let formals := (Frame.formals procedure.frame).length
  let count := if formals > 0 then " (" ++ formals.repr ++ " formals)" else ""
  let lines := procedure.body.flatten.map fun statement => "    " ++ statement.text ++ "\n"
  "PROC " ++ (Frame.label procedure.frame).text ++ count ++ ":\n" ++ String.join lines

def StaticData.text (data : StaticData) : String :=
  let values := data.values.map fun value => " " ++ value.toInt.repr
  "DATA " ++ data.label.text ++ ":" ++ String.join values ++ "\n"

def Fragment.text [Frame F] : Fragment F → String
  | procedure p => p.text
  | data d => d.text

def listing [Frame F] (fragments : List (Fragment F)) : String :=
  "\n".intercalate (fragments.map Fragment.text)

end TreeCompiler.Code
