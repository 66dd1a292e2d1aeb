import TreeCompiler.Json.Fault

set_option autoImplicit false

namespace TreeCompiler.Json

abbrev Reader := StateT (List Char) (Except Fault)

namespace Reader

variable {α : Type}

def unfinished (place : Unfinished) : Reader α := throw (.unfinished place)

def malformed (cause : Malformed) : Reader α := throw (.malformed cause)

def mismatch (cause : Mismatch) : Reader α := throw (.mismatch cause)

def isBlank (c : Char) : Bool := c = ' ' || c = '\t' || c = '\n' || c = '\r'

def next? : Reader (Option Char) := fun text =>
  let rest := text.dropWhile isBlank
  .ok (rest.head?, rest)

def advance : Reader Unit := fun text => .ok ((), text.tail)

def word : List Char → Reader Unit
  | [] => return
  | letter :: letters => fun text =>
      match text with
      | [] => .error (.unfinished .value)
      | c :: rest =>
          if c = letter then word letters rest else .error (.malformed .expectedIdent)

end Reader

end TreeCompiler.Json
