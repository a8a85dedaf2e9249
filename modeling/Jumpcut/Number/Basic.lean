import Jumpcut.Decimal.Fixed
import Jumpcut.Decimal.Reader
import Jumpcut.Fault

/-!
Numbers of four kinds: integers, fractions, binary64 numbers and complex numbers. An operation on
two kinds works in the later one. Integers and fractions are exact; a fraction may be whole.
-/
namespace Jumpcut

inductive Number : Type
  | int : Int → Number
  | frac : Rat → Number
  | float : Float → Number
  | complex : (re im : Float) → Number

namespace Number

def toRat? : Number → Option Rat
  | .int i => some i
  | .frac q => some q
  | .float x => Exact.ofFloat? x
  | .complex _ _ => none

def nearestFloat (q : Rat) : Except Fault Float :=
  match Exact.toFloat? q with
  | some x => .ok x
  | none => .error .tooLarge

def toFloat : Number → Except Fault Float
  | .int i => nearestFloat i
  | .frac q => nearestFloat q
  | .float x => .ok x
  | .complex _ _ => .error .wrongKind

def toComplex : Number → Except Fault (Float × Float)
  | .complex re im => .ok (re, im)
  | x => do return (← x.toFloat, 0.0)

def lift (exact : Rat → Rat → Rat) (onInt : Int → Int → Int) (onFloat : Float → Float → Float)
    (onComplex : Float × Float → Float × Float → Float × Float) :
    Number → Number → Except Fault Number
  | .int a, .int b => .ok (.int (onInt a b))
  | .int a, .frac b => .ok (.frac (exact a b))
  | .frac a, .int b => .ok (.frac (exact a b))
  | .frac a, .frac b => .ok (.frac (exact a b))
  | .complex a b, y => do
    let z := onComplex (a, b) (← y.toComplex)
    return .complex z.1 z.2
  | x, .complex c d => do
    let z := onComplex (← x.toComplex) (c, d)
    return .complex z.1 z.2
  | x, y => do return .float (onFloat (← x.toFloat) (← y.toFloat))

def add : Number → Number → Except Fault Number :=
  lift (· + ·) (· + ·) (· + ·) fun a b => (a.1 + b.1, a.2 + b.2)

def sub : Number → Number → Except Fault Number :=
  lift (· - ·) (· - ·) (· - ·) fun a b => (a.1 - b.1, a.2 - b.2)

def mul : Number → Number → Except Fault Number :=
  lift (· * ·) (· * ·) (· * ·) fun a b => (a.1 * b.1 - a.2 * b.2, a.1 * b.2 + a.2 * b.1)

def neg : Number → Number
  | .int a => .int (-a)
  | .frac a => .frac (-a)
  | .float x => .float (-x)
  | .complex a b => .complex (-a) (-b)

def complexDiv (a b : Float × Float) : Except Fault (Float × Float) :=
  let absRe := b.1.abs
  let absIm := b.2.abs
  if absIm ≤ absRe then
    if absRe == 0.0 then .error .divisionByZero
    else
      let ratio := b.2 / b.1
      let denom := b.1 + b.2 * ratio
      .ok ((a.1 + a.2 * ratio) / denom, (a.2 - a.1 * ratio) / denom)
  else if absRe ≤ absIm then
    let ratio := b.1 / b.2
    let denom := b.1 * ratio + b.2
    .ok ((a.1 * ratio + a.2) / denom, (a.2 * ratio - a.1) / denom)
  else .ok (0.0 / 0.0, 0.0 / 0.0)

def div : Number → Number → Except Fault Number
  | .int a, .int b =>
    if b = 0 then .error .divisionByZero else do return .float (← nearestFloat (a / b : Rat))
  | .int a, .frac b => if b = 0 then .error .divisionByZero else .ok (.frac (a / b))
  | .frac a, .int b => if b = 0 then .error .divisionByZero else .ok (.frac (a / b))
  | .frac a, .frac b => if b = 0 then .error .divisionByZero else .ok (.frac (a / b))
  | .complex a b, y => do
    let z ← complexDiv (a, b) (← y.toComplex)
    return .complex z.1 z.2
  | x, .complex c d => do
    let z ← complexDiv (← x.toComplex) (c, d)
    return .complex z.1 z.2
  | x, y => do
    let a ← x.toFloat
    let b ← y.toFloat
    if b == 0.0 then .error .divisionByZero else return .float (a / b)

def simplify (q : Rat) : Number := if q.den = 1 then .int q.num else .frac q

def compare? (x y : Number) : Option Ordering :=
  let place : Number → Option (Int × Rat)
    | .float f =>
      match Exact.classify f with
      | .nan => none
      | .inf neg => some (if neg then -1 else 1, 0)
      | .finite .. => (Exact.ofFloat? f).map (0, ·)
    | z => z.toRat?.map (0, ·)
  match place x, place y with
  | some (i, a), some (j, b) =>
    if i < j then some .lt else if j < i then some .gt
    else if a < b then some .lt else if b < a then some .gt else some .eq
  | _, _ => none

def eqv : Number → Number → Bool
  | .complex a b, .complex c d => a == c && b == d
  | .complex a b, y => b == 0.0 && compare? (.float a) y == some .eq
  | x, .complex c d => d == 0.0 && compare? x (.float c) == some .eq
  | x, y => compare? x y == some .eq

def lt (x y : Number) : Bool := compare? x y == some .lt
def le (x y : Number) : Bool := compare? x y == some .lt || compare? x y == some .eq

instance : BEq Number := ⟨eqv⟩

instance (n : Nat) : OfNat Number n := ⟨.int n⟩

def toIntBy (f : Rat → Int) : Number → Except Fault Int
  | .int a => .ok a
  | .frac q => .ok (f q)
  | .float x =>
    match Exact.classify x, Exact.ofFloat? x with
    | _, some q => .ok (f q)
    | .nan, _ => .error .badValue
    | _, _ => .error .tooLarge
  | .complex _ _ => .error .wrongKind

def trunc : Number → Except Fault Int := toIntBy Exact.trunc
def round : Number → Except Fault Int := toIntBy Exact.round
def floor : Number → Except Fault Int := toIntBy Rat.floor
def ceil : Number → Except Fault Int := toIntBy Rat.ceil

def isWhole : Number → Bool
  | .int _ => true
  | .frac q => q.den = 1
  | .float x => (Exact.ofFloat? x).any (·.den = 1)
  | .complex _ _ => false

def abs : Number → Number
  | .int a => .int a.natAbs
  | .frac q => .frac (if q < 0 then -q else q)
  | .float x => .float x.abs
  | .complex a b => .complex a b

def isWritable (i : Int) : Bool := i.natAbs < Nat.pow 10 Decimal.digitLimit

def intText (i : Int) : Except Fault String :=
  if isWritable i then .ok (toString i) else .error .badValue

def fracText (q : Rat) : Except Fault String := do
  let n ← intText q.num
  if q.den = 1 then return n
  return n ++ "/" ++ (← intText q.den)

def complexText (re im : Float) : String :=
  let imText := Decimal.bare.float im
  if re == 0.0 && !Exact.isNegative re then imText ++ "j"
  else
    let sign := if imText.startsWith "-" then "" else "+"
    "(" ++ Decimal.bare.float re ++ sign ++ imText ++ "j)"

def text : Number → Except Fault String
  | .int i => intText i
  | .frac q => fracText q
  | .float x => .ok (Decimal.plain.float x)
  | .complex re im => .ok (complexText re im)

def display (x : Number) : String :=
  match x.text with
  | .ok s => s
  | .error _ => ""

end Number

end Jumpcut
