import TreeCompiler.Json.Reader

set_option autoImplicit false

namespace TreeCompiler.Json.Reader

structure Numeral where
  negative : Bool
  whole : List Char
  fraction : Option (List Char)
  -- Whether the power of ten is negative, and its digits.
  exponent : Option (Bool × List Char)

def digits (cutOff : Fault) (text : List Char) : Except Fault (List Char × List Char) :=
  match text.takeWhile Char.isDigit with
  | [] => .error (if text.isEmpty then cutOff else .malformed .invalidNumber)
  | read => .ok (read, text.dropWhile Char.isDigit)

def wholePart (cutOff : Fault) (text : List Char) : Except Fault (List Char × List Char) :=
  match digits cutOff text with
  | .ok ('0' :: _ :: _, _) => .error (.malformed .invalidNumber)
  | result => result

def fractionPart (cutOff : Fault) : List Char → Except Fault (Option (List Char) × List Char)
  | '.' :: text => do
      let (read, rest) ← digits cutOff text
      return (some read, rest)
  | text => return (none, text)

def exponentSign : List Char → Bool × List Char
  | '+' :: text => (false, text)
  | '-' :: text => (true, text)
  | text => (false, text)

def exponentPart (cutOff : Fault) :
    List Char → Except Fault (Option (Bool × List Char) × List Char)
  | 'e' :: text | 'E' :: text => do
      let (negative, unsigned) := exponentSign text
      let (read, rest) ← digits cutOff unsigned
      return (some (negative, read), rest)
  | text => return (none, text)

def numeral (cutOff : Fault) (text : List Char) : Except Fault (Numeral × List Char) := do
  let (negative, unsigned) := match text with
    | '-' :: rest => (true, rest)
    | _ => (false, text)
  let (whole, rest) ← wholePart cutOff unsigned
  let (fraction, rest) ← fractionPart cutOff rest
  let (exponent, rest) ← exponentPart cutOff rest
  return ({ negative, whole, fraction, exponent }, rest)

def digitValue (c : Char) : Nat := c.toNat - '0'.toNat

def appendDigits (significand : Nat) : List Char → Nat × List Char
  | [] => (significand, [])
  | c :: rest =>
      let next := significand * 10 + digitValue c
      if next < UInt64.size then appendDigits next rest else (significand, c :: rest)

namespace Numeral

def toFloat (numeral : Numeral) (significand : Nat) (exponent : Int) : Except Fault Float :=
  -- A power that no 32-bit integer holds is not applied: the result is then zero, or too large if it
  -- would grow.
  let (negativePower, power) := match numeral.exponent with
    | some (negative, digits) =>
        (negative, digits.foldl (fun value c => value * 10 + digitValue c) 0)
    | none => (false, 0)
  let scaled :=
    if power ≤ 0x7fffffff then
      Number.scale? significand (if negativePower then exponent - power else exponent + power)
    else if significand = 0 ∨ negativePower then some 0
    else none
  match scaled with
  | some value => .ok (if numeral.negative then -value else value)
  | none => .error (.malformed .numberOutOfRange)

def toNumber (numeral : Numeral) : Except Fault Number :=
  -- Digits before the point that no longer fit the significand raise the power of ten, such digits
  -- after the point are dropped.
  let (significand, excess) := appendDigits 0 numeral.whole
  match numeral.fraction, numeral.exponent with
  | none, none =>
      if excess.isEmpty ∧ numeral.negative = false then .ok (.integer significand)
      else if excess.isEmpty ∧ 0 < significand ∧ significand ≤ 0x8000000000000000 then
        .ok (.integer (-significand))
      else (numeral.toFloat significand excess.length).map .float
  | fraction, _ =>
      let places := fraction.getD []
      let (significand, unused) := appendDigits significand places
      let exponent : Int := excess.length - (places.length - unused.length : Nat)
      (numeral.toFloat significand exponent).map .float

end Numeral

def number : Reader Number := fun text => do
  let (written, rest) ← numeral (.unfinished .value) text
  return (← written.toNumber, rest)

def skipNumber : Reader Unit := fun text => do
  let (_, rest) ← numeral (.malformed .invalidNumber) text
  return ((), rest)

end TreeCompiler.Json.Reader
