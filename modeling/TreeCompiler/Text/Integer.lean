set_option autoImplicit false

namespace TreeCompiler.Text

inductive IntegerFault
  | empty
  | invalidDigit
  | tooLarge
  | tooSmall
  deriving DecidableEq, Repr

def IntegerFault.message : IntegerFault → String
  | empty => "cannot parse integer from empty string"
  | invalidDigit => "invalid digit found in string"
  | tooLarge => "number too large to fit in target type"
  | tooSmall => "number too small to fit in target type"

def readDigits (limit : Nat) (past : IntegerFault) (value : Nat) :
    List Char → Except IntegerFault Nat
  -- The first character that is no digit, or that takes the value past the limit, is the fault.
  | [] => .ok value
  | c :: rest =>
      if c.isDigit then
        let next := value * 10 + (c.toNat - '0'.toNat)
        if next ≤ limit then readDigits limit past next rest else .error past
      else .error .invalidDigit

def readNumeral (limit : Nat) (past : IntegerFault) : List Char → Except IntegerFault Nat
  | [] => .error .invalidDigit
  | digits => readDigits limit past 0 digits

def readNat (limit : Nat) (text : String) : Except IntegerFault Nat :=
  match text.toList with
  | [] => .error .empty
  | '+' :: digits => readNumeral limit .tooLarge digits
  | digits => readNumeral limit .tooLarge digits

def readInt64 (text : String) : Except IntegerFault Int :=
  match text.toList with
  | [] => .error .empty
  | '-' :: digits => (readNumeral 0x8000000000000000 .tooSmall digits).map fun n : Nat => -(n : Int)
  | '+' :: digits => (readNumeral 0x7fffffffffffffff .tooLarge digits).map Int.ofNat
  | digits => (readNumeral 0x7fffffffffffffff .tooLarge digits).map Int.ofNat

end TreeCompiler.Text
