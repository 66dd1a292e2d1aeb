import TreeCompiler.Json.Number
import TreeCompiler.Text.Quoted

set_option autoImplicit false

namespace TreeCompiler.Json

inductive Found
  | null
  | boolean (value : Bool)
  | number (value : Number)
  | string (value : String)
  | sequence
  | map
  | unitVariant

def Found.text : Found → String
  | null => "null"
  | boolean value => "boolean `" ++ (if value then "true" else "false") ++ "`"
  | number (.integer value) => "integer `" ++ value.repr ++ "`"
  | number (.float value) => "floating point `" ++ Number.floatText value ++ "`"
  | string value => "string " ++ Text.quoted value
  | sequence => "sequence"
  | map => "map"
  | unitVariant => "unit variant"

inductive Unfinished
  | value
  | string
  | list
  | object
  deriving DecidableEq, Repr

inductive Malformed
  | expectedValue
  | expectedIdent
  | expectedColon
  | expectedListCommaOrEnd
  | expectedObjectCommaOrEnd
  | keyNotString
  | trailingComma
  | trailingCharacters
  | invalidNumber
  | numberOutOfRange
  | invalidEscape
  | loneSurrogate
  | unpairedSurrogate
  | controlCharacter
  deriving DecidableEq, Repr

inductive Mismatch
  | missingField (name : String)
  | duplicateField (name : String)
  | invalidLength (length : Nat) (expected : String)
  | invalidType (found : Found) (expected : String)
  | invalidValue (value : Int) (expected : String)
  | unknownVariant (name : String) (expected : List String)

inductive Fault
  | unfinished (place : Unfinished)
  | malformed (cause : Malformed)
  | mismatch (cause : Mismatch)

def Unfinished.message : Unfinished → String
  | value => "EOF while parsing a value"
  | string => "EOF while parsing a string"
  | list => "EOF while parsing a list"
  | object => "EOF while parsing an object"

def Malformed.message : Malformed → String
  | expectedValue => "expected value"
  | expectedIdent => "expected ident"
  | expectedColon => "expected `:`"
  | expectedListCommaOrEnd => "expected `,` or `]`"
  | expectedObjectCommaOrEnd => "expected `,` or `\x7d`"
  | keyNotString => "key must be a string"
  | trailingComma => "trailing comma"
  | trailingCharacters => "trailing characters"
  | invalidNumber => "invalid number"
  | numberOutOfRange => "number out of range"
  | invalidEscape => "invalid escape"
  | loneSurrogate => "lone leading surrogate in hex escape"
  | unpairedSurrogate => "unexpected end of hex escape"
  | controlCharacter => "control character (\\u0000-\\u001F) found while parsing a string"

def alternatives (names : List String) : String :=
  match names.map fun name => "`" ++ name ++ "`" with
  | [] => "nothing"
  | [only] => only
  | [first, second] => first ++ " or " ++ second
  | several => "one of " ++ ", ".intercalate several

def Mismatch.message : Mismatch → String
  | missingField name => "missing field `" ++ name ++ "`"
  | duplicateField name => "duplicate field `" ++ name ++ "`"
  | invalidLength length expected => "invalid length " ++ length.repr ++ ", expected " ++ expected
  | invalidType found expected => "invalid type: " ++ found.text ++ ", expected " ++ expected
  | invalidValue value expected =>
      "invalid value: integer `" ++ value.repr ++ "`, expected " ++ expected
  | unknownVariant name expected =>
      "unknown variant `" ++ name ++ "`, expected " ++ alternatives expected

def Fault.message : Fault → String
  | unfinished place => place.message
  | malformed cause => cause.message
  | mismatch cause => cause.message

end TreeCompiler.Json
