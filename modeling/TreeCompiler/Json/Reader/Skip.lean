import TreeCompiler.Json.Reader.Number
import TreeCompiler.Json.Reader.String

set_option autoImplicit false

namespace TreeCompiler.Json.Reader

inductive Bracket
  | list
  | object
  deriving DecidableEq, Repr

inductive Due
  | value
  | member
  | endOfValue
  deriving DecidableEq, Repr

def cutOff : Due → List Bracket → Fault
  | .value, _ => .unfinished .value
  | .member, _ => .unfinished .object
  | .endOfValue, .list :: _ => .unfinished .list
  | .endOfValue, _ => .unfinished .object

def skipStart (enclosing : List Bracket) : Reader (Due × List Bracket) := do
  match ← next? with
  | some 'n' => advance; word ['u', 'l', 'l']; return (.endOfValue, enclosing)
  | some 't' => advance; word ['r', 'u', 'e']; return (.endOfValue, enclosing)
  | some 'f' => advance; word ['a', 'l', 's', 'e']; return (.endOfValue, enclosing)
  | some '"' => skipString; return (.endOfValue, enclosing)
  | some '[' =>
      advance
      match ← next? with
      | some ']' => advance; return (.endOfValue, enclosing)
      | some _ => return (.value, .list :: enclosing)
      | none => unfinished .list
  | some '{' =>
      advance
      match ← next? with
      | some '}' => advance; return (.endOfValue, enclosing)
      | some _ => return (.member, .object :: enclosing)
      | none => unfinished .object
  | some c =>
      if c = '-' || c.isDigit then
        skipNumber
        return (.endOfValue, enclosing)
      else malformed .expectedValue
  | none => unfinished .value

def skipName : Reader Unit := do
  match ← next? with
  | some '"' => skipString
  | some _ => malformed .keyNotString
  | none => unfinished .object
  match ← next? with
  | some ':' => advance
  | some _ => malformed .expectedColon
  | none => unfinished .object

def skipEnd (bracket : Bracket) (outer : List Bracket) : Reader (Due × List Bracket) := do
  match bracket, ← next? with
  | .list, some ',' => advance; return (.value, .list :: outer)
  | .list, some ']' => advance; return (.endOfValue, outer)
  | .list, some _ => malformed .expectedListCommaOrEnd
  | .list, none => unfinished .list
  | .object, some ',' => advance; return (.member, .object :: outer)
  | .object, some '}' => advance; return (.endOfValue, outer)
  | .object, some _ => malformed .expectedObjectCommaOrEnd
  | .object, none => unfinished .object

def skipFrom : (bound : Nat) → Due → List Bracket → Reader Unit
  -- Every step takes a character at least, so a bound on those left bounds the steps.
  | _, .endOfValue, [] => return
  | 0, due, stillOpen => throw (cutOff due stillOpen)
  | bound + 1, .value, enclosing => do
      let (due, stillOpen) ← skipStart enclosing
      skipFrom bound due stillOpen
  | bound + 1, .member, enclosing => do
      skipName
      skipFrom bound .value enclosing
  | bound + 1, .endOfValue, bracket :: outer => do
      let (due, stillOpen) ← skipEnd bracket outer
      skipFrom bound due stillOpen

def skip (bound : Nat) : Reader Unit := skipFrom bound .value []

end TreeCompiler.Json.Reader
