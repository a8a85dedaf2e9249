import Jumpcut.Number.Basic

namespace Jumpcut

open Exact

namespace Exact

def copySign (x y : Float) : Float := if isNegative y then -x.abs else x.abs

def remainder (x y : Float) : Float :=
  match ofFloat? x, ofFloat? y with
  | some a, some b =>
    if b = 0 then 0.0 / 0.0
    else
      let r := a - b * trunc (a / b)
      copySign ((toFloat? r).getD 0.0) x
  | some _, none => if isNaN y then y else x
  | none, _ => 0.0 / 0.0

def isInf (x : Float) : Bool :=
  match classify x with
  | .inf _ => true
  | _ => false

def floorFloat (x : Float) : Float :=
  match ofFloat? x with
  | some q => if q.den = 1 then x else (toFloat? q.floor).getD x
  | none => x

def isOdd (x : Float) : Bool := (ofFloat? x).any fun q => q.den = 1 && q.num % 2 ≠ 0

def hypot (x y : Float) : Float :=
  match classify x, classify y with
  | .inf _, _ => 1.0 / 0.0
  | _, .inf _ => 1.0 / 0.0
  | .finite _ m e, .finite _ n f =>
    let low := min e f
    let a := m * Nat.pow 2 (e - low).toNat
    let b := n * Nat.pow 2 (f - low).toNat
    let s := (a * a + b * b) * Nat.pow 4 60
    let r := s.sqrt
    let r : Nat := 2 * r + (if r * r = s then 0 else 1)
    (toFloat? (scaled r (low - 61))).getD (1.0 / 0.0)
  | _, _ => 0.0 / 0.0

end Exact

namespace Number

def alignRemainder (q r y : Float) : Float × Float :=
  if r != 0.0 then
    (if (y < 0.0) != (r < 0.0) then (q - 1.0, r + y) else (q, r))
  else (q, copySign 0.0 y)

def wholeQuotient (q exact : Float) : Float :=
  if q != 0.0 then
    let f := floorFloat q
    if q - f > 0.5 then f + 1.0 else f
  else copySign 0.0 exact

def floatDivMod (x y : Float) : Except Fault (Float × Float) :=
  if y == 0.0 then .error .divisionByZero
  else
    let r := remainder x y
    let (q, r) := alignRemainder ((x - r) / y) r y
    .ok (wholeQuotient q (x / y), r)

def divMod : Number → Number → Except Fault (Number × Number)
  | .int a, .int b =>
    if b = 0 then .error .divisionByZero else .ok (.int (a.fdiv b), .int (a.fmod b))
  | .complex _ _, _ => .error .wrongKind
  | _, .complex _ _ => .error .wrongKind
  | .float a, y => do
    let (q, r) ← floatDivMod a (← y.toFloat)
    return (.float q, .float r)
  | x, .float b => do
    let (q, r) ← floatDivMod (← x.toFloat) b
    return (.float q, .float r)
  | .int a, .frac b => exactDivMod a b
  | .frac a, .int b => exactDivMod a b
  | .frac a, .frac b => exactDivMod a b
where
  exactDivMod (a b : Rat) : Except Fault (Number × Number) :=
    if b = 0 then .error .divisionByZero
    else
      let q := (a / b).floor
      .ok (.int q, .frac (a - b * q))

def mod (x y : Number) : Except Fault Number := do return (← divMod x y).2

def rotatedPow (x y : Float) : Except Fault Number :=
  let len := Float.pow x.abs y
  let phase := Float.atan2 0.0 x * y
  let re := len * phase.cos
  let im := len * phase.sin
  if isInf re || isInf im then .error .tooLarge else .ok (.complex re im)

def floatPow (x y : Float) : Except Fault Number :=
  let inf : Float := 1.0 / 0.0
  if y == 0.0 then .ok (.float 1.0)
  else if isNaN x then .ok (.float x)
  else if isNaN y then .ok (.float (if x == 1.0 then 1.0 else y))
  else if isInf y then
    let a := x.abs
    .ok (.float (if a == 1.0 then 1.0 else if (y > 0.0) == (a > 1.0) then inf else 0.0))
  else if isInf x then
    if y > 0.0 then .ok (.float (if isOdd y then x else inf))
    else .ok (.float (if isOdd y then copySign 0.0 x else 0.0))
  else if x == 0.0 then
    if y < 0.0 then .error .divisionByZero
    else .ok (.float (if isOdd y then x else 0.0))
  else if x < 0.0 && floorFloat y != y then rotatedPow x y
  else
    let flip := x < 0.0 && isOdd y
    let a := x.abs
    let r := if a == 1.0 then 1.0 else Float.pow a y
    if isInf r then .error .tooLarge else .ok (.float (if flip then -r else r))

def fracPow (q : Rat) (n : Int) : Except Fault Number :=
  if 0 ≤ n then .ok (.frac (q ^ n.toNat))
  else if q = 0 then .error .divisionByZero
  else .ok (.frac ((1 / q) ^ (-n).toNat))

def pow : Number → Number → Except Fault Number
  | .int a, .int b =>
    if 0 ≤ b then .ok (.int (Int.pow a b.toNat))
    else do floatPow (← nearestFloat a) (← nearestFloat b)
  | .frac a, .int b => fracPow a b
  | .int a, .frac b =>
    if b.den = 1 then
      (if 0 ≤ b.num then .ok (.int (Int.pow a b.num.toNat)) else fracPow a b.num)
    else do floatPow (← nearestFloat a) (← nearestFloat b)
  | .frac a, .frac b =>
    if b.den = 1 then fracPow a b.num
    else do floatPow (← nearestFloat a) (← nearestFloat b)
  | x, y => do floatPow (← x.toFloat) (← y.toFloat)

/-- Root of half of the sum of a complex number's real part and modulus, from the sizes of its
parts. Parts below the normal range are scaled up by `2 ^ 53` first, all others down by `8`. -/
def halfRoot (x y : Float) : Float :=
  let root (x y : Float) : Float := (x + hypot x y).sqrt
  let leastNormal := Float.ofBits 0x0010000000000000
  if x < leastNormal && y < leastNormal then
    root (x * 9007199254740992.0) (y * 9007199254740992.0) / 134217728.0
  else 2.0 * root (x / 8.0) (y / 8.0)

def complexSqrt (re im : Float) : Float × Float :=
  if re == 0.0 && im == 0.0 then (0.0, im)
  else
    let s := halfRoot re.abs im.abs
    let d := im.abs / (2.0 * s)
    if re ≥ 0.0 then (s, copySign d im) else (d, copySign s im)

def infiniteSqrt (re im : Float) : Float × Float :=
  let inf : Float := 1.0 / 0.0
  if isInf im then (inf, im)
  else if isInf re then
    if re > 0.0 then (inf, if isNaN im then im else copySign 0.0 im)
    else if isNaN im then (im, inf)
    else (0.0, copySign inf im)
  else (0.0 / 0.0, 0.0 / 0.0)

def sqrt (x : Number) : Except Fault Number := do
  let (re, im) ← x.toComplex
  let finite := (ofFloat? re).isSome && (ofFloat? im).isSome
  let (a, b) := if finite then complexSqrt re im else infiniteSqrt re im
  if b == 0.0 then
    let n ← trunc (.float a)
    if eqv (.int n) (.float a) then return .int n else return .float a
  else return .complex a b

def realPart : Number → Number
  | .complex re _ => .float re
  | x => x

def imagPart : Number → Number
  | .complex _ im => .float im
  | .float _ => .float 0.0
  | _ => .int 0

end Number

end Jumpcut
