import TreeCompiler.Decimal.Shortest

set_option autoImplicit false

namespace TreeCompiler.Json

inductive Number
  | integer (value : Int)
  | float (value : Float)

namespace Number

/--
Digits with the power of ten of the first: positional from five places after the point up to
sixteen places before it, else one digit before the point and the power of ten after an `e`.
-/
def layOut (digits : List Char) (leading : Int) : List Char :=
  if 0 ≤ leading ∧ leading ≤ 15 then
    let whole := leading.toNat + 1
    let fraction := digits.drop whole
    digits.take whole ++ List.replicate (whole - digits.length) '0' ++ ['.']
      ++ if fraction.isEmpty then ['0'] else fraction
  else if -5 ≤ leading ∧ leading < 0 then
    ['0', '.'] ++ List.replicate (-leading - 1).toNat '0' ++ digits
  else
    let fraction := digits.drop 1
    digits.take 1 ++ (if fraction.isEmpty then [] else '.' :: fraction) ++ ['e']
      ++ [if leading < 0 then '-' else '+'] ++ Nat.toDigits 10 leading.natAbs

def floatText (value : Float) : String :=
  -- Zero keeps its sign.
  let bits := value.toBits
  let magnitude := bits &&& 0x7fffffffffffffff
  let sign := if bits = magnitude then [] else ['-']
  if magnitude = 0 then
    String.ofList (sign ++ ['0', '.', '0'])
  else
    let decimal := (Decimal.Binary.ofBits magnitude).shortest
    let digits := Nat.toDigits 10 decimal.digits
    String.ofList (sign ++ layOut digits (decimal.exponent + digits.length - 1))

def greatestTen : Nat := 308

def powerOfTen (exponent : Nat) : Float := Float.ofScientific 1 false exponent

def shrink (value : Float) (exponent : Nat) : Float :=
  if exponent ≤ greatestTen then value / powerOfTen exponent
  else if value == 0 then value
  else shrink (value / powerOfTen greatestTen) (exponent - greatestTen)
termination_by exponent
decreasing_by simp only [greatestTen]; omega

def grow? (value : Float) (exponent : Nat) : Option Float :=
  if exponent ≤ greatestTen then
    let product := value * powerOfTen exponent
    if product.isInf then none else some product
  else if value == 0 then some value
  else none

def scale? (significand : Nat) (exponent : Int) : Option Float :=
  -- The significand is rounded to a float first, and the result once more, so it may differ from the
  -- nearest float in its last digit.
  let value := (UInt64.ofNat significand).toFloat
  if 0 ≤ exponent then grow? value exponent.toNat
  else some (shrink value (-exponent).toNat)

end Number

end TreeCompiler.Json
