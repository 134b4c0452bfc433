import ScriptCpp.Binary64

set_option autoImplicit false

namespace ScriptCpp

namespace Decimal

def trim : Nat → Decimal → Decimal
  | 0, d => d
  | fuel + 1, d =>
      if d.digits % 10 = 0 && d.digits != 0 then trim fuel ⟨d.digits / 10, d.exponent + 1⟩ else d

def zeros (n : Nat) : List Char := List.replicate n '0'

def text (d : Decimal) : String :=
  let digits := Nat.toDigits 10 d.digits
  if 0 ≤ d.exponent then String.ofList (digits ++ zeros d.exponent.toNat)
  else
    let places := (-d.exponent).toNat
    let padded := zeros (places + 1 - digits.length) ++ digits
    let whole := padded.length - places
    String.ofList (padded.take whole ++ '.' :: padded.drop whole)

end Decimal

namespace Binary64

/-- The `k` with `10 ^ (k - 1) ≤ n / d < 10 ^ k`, for a positive `n / d`. -/
def decimalExponent (n d : Nat) : Int :=
  if d ≤ n then digitCount (n / d)
  else
    let l := digitCount (d / n)
    if d ≤ n * Nat.pow 10 (l - 1) then 2 - l else 1 - l

def neighbour? (target : Binary64) (n d : Nat) (k : Int) (count : Nat) : Option Decimal :=
  let unit := k - count
  let (a, b) := scaled 10 n d unit
  let below : Decimal := ⟨a / b, unit⟩
  let above : Decimal := ⟨a / b + 1, unit⟩
  match ofDecimal false below == target, ofDecimal false above == target with
  | true, true => some (if 2 * (a % b) < b then below else above)
  | true, false => some below
  | false, true => some above
  | false, false => none

def exactDecimal (m : Nat) (e : Int) : Decimal :=
  if 0 ≤ e then ⟨m * Nat.pow 2 e.toNat, 0⟩ else ⟨m * Nat.pow 5 (-e).toNat, e⟩

def shortestFrom (m : Nat) (e : Int) (n d : Nat) (k : Int) : Nat → Nat → Decimal
  | 0, _ => exactDecimal m e
  | fuel + 1, count =>
      (neighbour? (.finite false m e) n d k count).getD (shortestFrom m e n d k fuel (count + 1))

-- The fewest digits that read back, of those the nearest, a tie going up. Seventeen always read back.
def shortest (m : Nat) (e : Int) : Decimal :=
  if m = 0 then ⟨0, 0⟩
  else
    let (n, d) := scaled 2 m 1 (-e)
    (shortestFrom m e n d (decimalExponent n d) 17 1).trim 18

def text : Binary64 → String
  | .nan => "NaN"
  | .infinite negative => if negative then "-inf" else "inf"
  | .finite negative m e => (if negative then "-" else "") ++ (shortest m e).text

end Binary64

end ScriptCpp
