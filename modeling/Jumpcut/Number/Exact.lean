/-!
Binary64 numbers as exact rationals, and rationals rounded to integers and to binary64.

Every comparison and every conversion to an integer goes through the exact value, so none of
them depends on how the hardware rounds.
-/
namespace Jumpcut

/-- What a binary64 number denotes: `finite neg m e` is `± m * 2 ^ e`. -/
inductive FloatClass : Type
  | nan : FloatClass
  | inf : (neg : Bool) → FloatClass
  | finite : (neg : Bool) → (mantissa : Nat) → (exponent : Int) → FloatClass
  deriving DecidableEq, Repr

namespace Exact

def classify (x : Float) : FloatClass :=
  let bits := x.toBits.toNat
  let neg := bits / Nat.pow 2 63 == 1
  let field : Nat := bits / Nat.pow 2 52 % Nat.pow 2 11
  let frac := bits % Nat.pow 2 52
  if field = 2047 then (if frac = 0 then .inf neg else .nan)
  else if field = 0 then .finite neg frac (-1074)
  else .finite neg (frac + Nat.pow 2 52) ((field : Int) - 1075)

def scaled (m : Int) (e : Int) : Rat :=
  if 0 ≤ e then mkRat (m * Int.pow 2 e.toNat) 1 else mkRat m (Nat.pow 2 (-e).toNat)

def ofFloat? (x : Float) : Option Rat :=
  match classify x with
  | .finite neg m e => some (scaled (if neg then -(m : Int) else m) e)
  | _ => none

def isNegative (x : Float) : Bool := x.toBits.toNat / Nat.pow 2 63 == 1

def isNaN (x : Float) : Bool := classify x == .nan

/-- Quotient to the nearest integer, a half going to the even neighbour. -/
def roundDiv (num : Int) (den : Nat) : Int :=
  let q := num.fdiv den
  let r := num.fmod den
  if 2 * r < den then q
  else if (den : Int) < 2 * r then q + 1
  else if q % 2 = 0 then q else q + 1

def round (q : Rat) : Int := roundDiv q.num q.den

def trunc (q : Rat) : Int := q.num.tdiv q.den

/-- Bit pattern of the binary64 number nearest to `n / d` (ties to even), or `none` beyond the
largest finite one. -/
def bitsOfRatio (n d : Nat) : Option Nat :=
  if n = 0 then some 0 else
  let k : Int := (n.log2 : Int) - d.log2
  let e := k - 53
  let above (e : Int) : Bool :=
    if 0 ≤ e then Nat.pow 2 53 * (d * Nat.pow 2 e.toNat) ≤ n
    else Nat.pow 2 53 * d ≤ n * Nat.pow 2 (-e).toNat
  let e := if above e then e + 1 else e
  let e := max e (-1074)
  let q : Int :=
    if 0 ≤ e then roundDiv n (d * Nat.pow 2 e.toNat) else roundDiv (n * Nat.pow 2 (-e).toNat : Nat) d
  let q := q.toNat
  if q < Nat.pow 2 52 then some q
  else
    let bits := (e + 1075).toNat * Nat.pow 2 52 + (q - Nat.pow 2 52)
    if bits < 2047 * Nat.pow 2 52 then some bits else none

def toFloat? (q : Rat) : Option Float :=
  (bitsOfRatio q.num.natAbs q.den).map fun b =>
    Float.ofBits (UInt64.ofNat (if q.num < 0 then b + Nat.pow 2 63 else b))

end Exact

end Jumpcut
