set_option autoImplicit false

namespace TreeCompiler.Json

inductive Value
  | null
  | boolean (value : Bool)
  | number (value : Int)
  | string (value : String)
  | list (elements : List Value)
  | object (members : List (String × Value))

namespace Value

def hexDigits (n : Nat) : List Char :=
  let digits := Nat.toDigits 16 n
  List.replicate (4 - digits.length) '0' ++ digits

def escaped : Char → List Char
  | '"' => ['\\', '"']
  | '\\' => ['\\', '\\']
  | '\x08' => ['\\', 'b']
  | '\x0c' => ['\\', 'f']
  | '\n' => ['\\', 'n']
  | '\r' => ['\\', 'r']
  | '\t' => ['\\', 't']
  | c => if c.toNat < 0x20 then ['\\', 'u'] ++ hexDigits c.toNat else [c]

def stringChars (text : String) : List Char :=
  '"' :: text.toList.flatMap escaped ++ ['"']

mutual

def chars : Value → List Char
  | null => ['n', 'u', 'l', 'l']
  | boolean true => ['t', 'r', 'u', 'e']
  | boolean false => ['f', 'a', 'l', 's', 'e']
  | number value => value.repr.toList
  | string value => stringChars value
  | list [] => ['[', ']']
  | list (first :: rest) => '[' :: (first.chars ++ charsOfElements rest ++ [']'])
  | object [] => ['{', '}']
  | object ((name, value) :: rest) =>
      '{' :: (stringChars name ++ ':' :: (value.chars ++ charsOfMembers rest ++ ['}']))

def charsOfElements : List Value → List Char
  | [] => []
  | first :: rest => ',' :: (first.chars ++ charsOfElements rest)

def charsOfMembers : List (String × Value) → List Char
  | [] => []
  | (name, value) :: rest =>
      ',' :: (stringChars name ++ ':' :: (value.chars ++ charsOfMembers rest))

end

def text (value : Value) : String := String.ofList value.chars

end Value

end TreeCompiler.Json
