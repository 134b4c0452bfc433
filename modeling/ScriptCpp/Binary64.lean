set_option autoImplicit false

namespace ScriptCpp

-- A finite value is `significand * 2 ^ exponent`, with the exponent as small as the format allows.
inductive Binary64 where
  | nan
  | infinite (negative : Bool)
  | finite (negative : Bool) (significand : Nat) (exponent : Int)
deriving DecidableEq, Repr

structure Decimal where
  digits : Nat
  exponent : Int
deriving DecidableEq, Repr

namespace Binary64

def hiddenBit : Nat := Nat.pow 2 52

def minExponent : Int := -1074

def maxExponent : Int := 971

def zero (negative : Bool) : Binary64 := .finite negative 0 minExponent

def negate : Binary64 → Binary64
  | .nan => .nan
  | .infinite negative => .infinite !negative
  | .finite negative m e => .finite (!negative) m e

def isIntegral : Binary64 → Bool
  | .nan => false
  | .infinite _ => false
  | .finite _ m e => 0 ≤ e || m % Nat.pow 2 (-e).toNat = 0

def roundHalfEven (n d : Nat) : Nat :=
  if 2 * (n % d) < d then n / d
  else if d < 2 * (n % d) then n / d + 1
  else n / d + n / d % 2

def scaled (base n d : Nat) (e : Int) : Nat × Nat :=
  if 0 ≤ e then (n, d * Nat.pow base e.toNat) else (n * Nat.pow base (-e).toNat, d)

/-- The exponent of the last significand bit of a positive `n / d`. -/
def exponentOf (n d : Nat) : Int :=
  let guess : Int := (n.log2 : Int) - d.log2 - 52
  let (a, b) := scaled 2 n d guess
  max (if a / b < hiddenBit then guess - 1 else guess) minExponent

/-- The value nearest to `n / d`, ties to even, infinite from half a step above the largest. -/
def ofRatio (negative : Bool) (n d : Nat) : Binary64 :=
  if n = 0 then zero negative
  else
    let e := exponentOf n d
    let (a, b) := scaled 2 n d e
    let m := roundHalfEven a b
    let (m, e) := if m = 2 * hiddenBit then (hiddenBit, e + 1) else (m, e)
    if maxExponent < e then .infinite negative else .finite negative m e

def digitCount (n : Nat) : Nat := (Nat.toDigits 10 n).length

/-- The value nearest to a decimal. Far outside the range no power of ten is computed. -/
def ofDecimal (negative : Bool) (d : Decimal) : Binary64 :=
  if d.digits = 0 then zero negative
  else if 400 < digitCount d.digits + d.exponent then .infinite negative
  else if digitCount d.digits + d.exponent < -400 then zero negative
  else
    let (a, b) := scaled 10 d.digits 1 (-d.exponent)
    ofRatio negative a b

def toBits : Binary64 → Nat
  | .nan => 0x7ff8 * Nat.pow 2 48
  | .infinite negative => negative.toNat * Nat.pow 2 63 + 0x7ff * hiddenBit
  | .finite negative m e =>
      negative.toNat * Nat.pow 2 63 +
        if m < hiddenBit then m else (e - minExponent + 1).toNat * hiddenBit + (m - hiddenBit)

def ofBits (bits : Nat) : Binary64 :=
  let negative := bits / Nat.pow 2 63 % 2 == 1
  let biased : Nat := bits / hiddenBit % 2048
  let fraction : Nat := bits % hiddenBit
  if biased = 0x7ff then
    if fraction = 0 then .infinite negative else .nan
  else if biased = 0 then .finite negative fraction minExponent
  else .finite negative (hiddenBit + fraction) (minExponent + biased - 1)

end Binary64

end ScriptCpp
