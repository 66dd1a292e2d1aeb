set_option autoImplicit false

namespace TreeCompiler.Decimal

/-- The positive number `m · 2 ^ q`. -/
structure Binary where
  m : Nat
  q : Int
  -- The next smaller number is only half as far away as the next larger one.
  narrowBelow : Bool
  deriving DecidableEq, Repr

def Binary.ofBits (bits : UInt64) : Binary :=
  let exponent := (bits >>> 52 &&& 0x7ff).toNat
  let fraction := (bits &&& 0xfffffffffffff).toNat
  if exponent = 0 then
    { m := fraction, q := -1074, narrowBelow := false }
  else
    { m := 0x10000000000000 + fraction, q := (exponent : Int) - 1075,
      narrowBelow := fraction = 0 && 1 < exponent }

structure Scaled where
  digits : Nat
  -- The power of ten of the last digit.
  exponent : Int
  deriving DecidableEq, Repr

def digitCount (n : Nat) : Nat := (Nat.toDigits 10 n).length

def Binary.leadingExponent (b : Binary) : Int :=
  let numerator := b.m * Nat.pow 2 b.q.toNat
  let denominator := Nat.pow 2 (-b.q).toNat
  if denominator ≤ numerator then
    digitCount (numerator / denominator) - 1
  else
    0 - digitCount ((denominator - 1) / numerator)

def Binary.scales (b : Binary) (k : Int) : Nat × Nat :=
  -- These bring `m · 2 ^ q` and a multiple of `10 ^ k` to the same whole unit.
  (Nat.pow 2 b.q.toNat * Nat.pow 10 (-k).toNat, Nat.pow 2 (-b.q).toNat * Nat.pow 10 k.toNat)

/--
Whether `c · 10 ^ k` reads back as the number: it lies between the midpoints to the neighbours. A
midpoint itself goes to the neighbour whose last bit is zero.
-/
def Binary.readsBack (b : Binary) (k : Int) (c : Nat) : Bool :=
  let (up, down) := b.scales k
  let candidate := 4 * c * down
  let low := (4 * b.m - if b.narrowBelow then 1 else 2) * up
  let high := (4 * b.m + 2) * up
  if b.m % 2 = 0 then low ≤ candidate && candidate ≤ high
  else low < candidate && candidate < high

def Binary.neighbour? (b : Binary) (k : Int) : Option Nat :=
  let (up, down) := b.scales k
  let below := b.m * up / down
  let twiceRest := 2 * (b.m * up % down)
  let candidates :=
    if twiceRest < down || (twiceRest = down && below % 2 = 0) then [below, below + 1]
    else [below + 1, below]
  candidates.find? fun c => 0 < c && b.readsBack k c

def Scaled.trim : Nat → Scaled → Scaled
  | 0, decimal => decimal
  | count + 1, decimal =>
      if decimal.digits % 10 = 0 then
        trim count { digits := decimal.digits / 10, exponent := decimal.exponent + 1 }
      else decimal

def Binary.shortest (b : Binary) : Scaled :=
  let leading := b.leadingExponent
  -- Seventeen digits are always enough.
  let found := (List.range 17).findSome? fun (places : Nat) =>
    let k := leading - places
    (b.neighbour? k).map fun c => ({ digits := c, exponent := k } : Scaled)
  match found with
  | some decimal => decimal.trim 17
  | none => { digits := b.m, exponent := 0 }

end TreeCompiler.Decimal
