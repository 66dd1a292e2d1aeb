import TreeCompiler.Json.Reader.Skip

set_option autoImplicit false

namespace TreeCompiler.Json.Reader

variable {α σ : Type}

def found : Reader Found := do
  -- A scalar is read whole, so that a fault of its own comes first.
  match ← next? with
  | some 'n' => advance; word ['u', 'l', 'l']; return .null
  | some 't' => advance; word ['r', 'u', 'e']; return .boolean true
  | some 'f' => advance; word ['a', 'l', 's', 'e']; return .boolean false
  | some '"' => return .string (← string)
  | some '[' => return .sequence
  | some '{' => return .map
  | some c => if c = '-' || c.isDigit then return .number (← number) else malformed .expectedValue
  | none => unfinished .value

def unexpected (expected : String) : Reader α := do
  mismatch (.invalidType (← found) expected)

def name : Reader String := do
  match ← next? with
  | some '"' => string
  | _ => unexpected "a string"

def integer (low high : Int) (expected : String) : Reader Int := do
  match ← found with
  | .number (.integer value) =>
      if low ≤ value ∧ value ≤ high then return value
      else mismatch (.invalidValue value expected)
  | other => mismatch (.invalidType other expected)

def null : Reader Unit := do
  match ← found with
  | .null => return
  | other => mismatch (.invalidType other "unit")

def colon : Reader Unit := do
  match ← next? with
  | some ':' => advance
  | some _ => malformed .expectedColon
  | none => unfinished .object

def moreElements (first : Bool) : Reader Bool := do
  match first, ← next? with
  | _, some ']' => return false
  | _, none => unfinished .list
  | true, some _ => return true
  | false, some ',' =>
      advance
      match ← next? with
      | some ']' => malformed .trailingComma
      | some _ => return true
      | none => unfinished .value
  | false, some _ => malformed .expectedListCommaOrEnd

def endList : Reader Unit := do
  match ← next? with
  | some ']' => advance
  | some ',' =>
      advance
      match ← next? with
      | some ']' => malformed .trailingComma
      | _ => malformed .trailingCharacters
  | some _ => malformed .trailingCharacters
  | none => unfinished .list

def elements (element : Reader α) : (bound : Nat) → (first : Bool) → Reader (List α)
  -- No more characters are left than the bound.
  | 0, _ => unfinished .list
  | bound + 1, first => do
      if ← moreElements first then
        let value ← element
        return value :: (← elements element bound false)
      else
        return []

def list (bound : Nat) (element : Reader α) : Reader (List α) := do
  match ← next? with
  | some '[' =>
      advance
      let values ← elements element bound true
      endList
      return values
  | _ => unexpected "a sequence"

def pair (title : String) (element : Reader α) : Reader (α × α) := do
  let tooShort (length : Nat) : Reader α :=
    mismatch (.invalidLength length (title ++ " with 2 elements"))
  match ← next? with
  | some '[' =>
      advance
      let left ← if ← moreElements true then element else tooShort 0
      let right ← if ← moreElements false then element else tooShort 1
      endList
      return (left, right)
  | _ => unexpected title

/-- A field of a record: how it is read, and where it is kept among the parts read so far. -/
structure RecordField (σ : Type) where
  key : String
  {Value : Type}
  read : Reader Value
  store : Value → σ → σ
  isPresent : σ → Bool
  isOptional : Bool := false

def moreMembers (first : Bool) : Reader Bool := do
  match first, ← next? with
  | _, some '}' => advance; return false
  | _, none => unfinished .object
  | true, some '"' => return true
  | true, some _ => malformed .keyNotString
  | false, some ',' =>
      advance
      match ← next? with
      | some '"' => return true
      | some '}' => malformed .trailingComma
      | some _ => malformed .keyNotString
      | none => unfinished .value
  | false, some _ => malformed .expectedObjectCommaOrEnd

def member (bound : Nat) (fields : List (RecordField σ)) (parts : σ) : Reader σ := do
  let key ← string
  match fields.find? (·.key = key) with
  | some field =>
      if field.isPresent parts then mismatch (.duplicateField key)
      colon
      return field.store (← field.read) parts
  | none =>
      colon
      skip bound
      return parts

def members (fields : List (RecordField σ)) : (bound : Nat) → (first : Bool) → σ → Reader σ
  | 0, _, _ => unfinished .object
  | bound + 1, first, parts => do
      if ← moreMembers first then
        members fields bound false (← member bound fields parts)
      else
        return parts

def positions (tooShort : Nat → Mismatch) (index : Nat) : List (RecordField σ) → σ → Reader σ
  | [], parts => do
      endList
      return parts
  | field :: fields, parts => do
      if ← moreElements (index = 0) then
        positions tooShort (index + 1) fields (field.store (← field.read) parts)
      else if field.isOptional then
        positions tooShort (index + 1) fields parts
      else
        mismatch (tooShort index)

def record (bound : Nat) (title : String) (fields : List (RecordField σ)) (blank : σ) : Reader σ := do
  match ← next? with
  | some '{' =>
      advance
      members fields bound true blank
  | some '[' =>
      advance
      let whole := title ++ " with " ++ fields.length.repr ++ " elements"
      positions (.invalidLength · whole) 0 fields blank
  | _ => unexpected title

def required (key : String) : Option α → Reader α
  | some value => return value
  | none => mismatch (.missingField key)

structure Variant (α : Type) where
  name : String
  bare : Except Mismatch α
  payload : Reader α

def Variant.withPayload (name : String) (form : String) (payload : Reader α) : Variant α where
  name := name
  bare := .error (.invalidType .unitVariant form)
  payload := payload

def Variant.plain (name : String) (value : α) : Variant α where
  name := name
  bare := .ok value
  payload := do
    null
    return value

def variantName (variants : List (Variant α)) : Reader (Variant α) := do
  let name ← string
  match variants.find? (·.name = name) with
  | some variant => return variant
  | none => mismatch (.unknownVariant name (variants.map Variant.name))

def variantKey (variants : List (Variant α)) : Reader (Variant α) := do
  match ← next? with
  | some '"' => variantName variants
  | some '}' => malformed .expectedValue
  | some _ => malformed .keyNotString
  | none => unfinished .object

def choice (variants : List (Variant α)) : Reader α := do
  match ← next? with
  | some '{' =>
      advance
      let variant ← variantKey variants
      colon
      let value ← variant.payload
      match ← next? with
      | some '}' => advance; return value
      | some _ => malformed .expectedValue
      | none => unfinished .object
  | some '"' =>
      match (← variantName variants).bare with
      | .ok value => return value
      | .error cause => mismatch cause
  | some _ => malformed .expectedValue
  | none => unfinished .value

end TreeCompiler.Json.Reader
