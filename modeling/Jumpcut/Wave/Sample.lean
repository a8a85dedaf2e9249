import Jumpcut.Number.Basic
import Jumpcut.Wave.Bytes

namespace Jumpcut.Wave

inductive SampleKind : Type
  | unsigned | signed | float
  deriving DecidableEq, Repr

structure SampleFormat where
  kind : SampleKind
  bytes : Nat
  order : ByteOrder
  deriving DecidableEq, Repr

namespace SampleFormat

def letter (f : SampleFormat) : String :=
  match f.kind with
  | .unsigned => "u"
  | .signed => "i"
  | .float => "f"

def name (f : SampleFormat) : String :=
  (if f.bytes = 1 then "|" else match f.order with
    | .little => "<"
    | .big => ">") ++ f.letter ++ toString f.bytes

def named (s : String) : SampleFormat :=
  match s.toList with
  | order :: letter :: size =>
    { kind := if letter = 'u' then .unsigned else if letter = 'i' then .signed else .float
      bytes := (String.ofList size).toNat?.getD 1
      order := if order = '>' then .big else .little }
  | _ => ⟨.unsigned, 1, .little⟩

def isValid (f : SampleFormat) : Bool :=
  match f.kind with
  | .float => f.bytes ∈ [2, 4, 8, 16]
  | _ => f.bytes ∈ [1, 2, 4, 8]

def signedValue (bits word : Nat) : Int :=
  if Nat.pow 2 (bits - 1) ≤ word then (word : Int) - Int.pow 2 bits else word

/-- The number of a binary interchange format with `e` exponent bits and `p` fraction bits. -/
def floatValue (e p word : Nat) : Float :=
  let neg := word / Nat.pow 2 (e + p) % 2 == 1
  let field : Nat := word / Nat.pow 2 p % Nat.pow 2 e
  let frac := word % Nat.pow 2 p
  let bias : Int := Int.pow 2 (e - 1) - 1
  let x : Float :=
    if field = Nat.pow 2 e - 1 then (if frac = 0 then 1.0 / 0.0 else 0.0 / 0.0)
    else if field = 0 then (Exact.toFloat? (Exact.scaled frac (1 - bias - p))).getD 0.0
    else
      (Exact.toFloat? (Exact.scaled (frac + Nat.pow 2 p : Nat) ((field : Int) - bias - p))).getD
        (1.0 / 0.0)
  if neg then -x else x

def extendedValue (word : Nat) : Float :=
  let neg := word / Nat.pow 2 79 % 2 == 1
  let field : Nat := word / Nat.pow 2 64 % Nat.pow 2 15
  let mant : Nat := word % Nat.pow 2 64
  let x : Float :=
    if field = 32767 then (if mant % Nat.pow 2 63 = 0 then 1.0 / 0.0 else 0.0 / 0.0)
    else (Exact.toFloat? (Exact.scaled mant ((max field 1 : Nat) - (16446 : Int)))).getD (1.0 / 0.0)
  if neg then -x else x

/-- The word nearest to `m * 2 ^ x` in the format that `floatValue` reads, the sign apart. What is
too large becomes infinity. -/
def magnitudeWord (e p m : Nat) (x : Int) : Nat :=
  if m = 0 then 0 else
  let least : Int := 2 - Int.pow 2 (e - 1) - p
  let unit := max ((m.log2 : Int) + x - p) least
  let count := (Exact.round (Exact.scaled m (x - unit))).toNat
  min ((unit - least).toNat * Nat.pow 2 p + count) ((Nat.pow 2 e - 1) * Nat.pow 2 p)

def nearestWord (e p : Nat) (x : Float) : Nat :=
  let sign (neg : Bool) : Nat := if neg then Nat.pow 2 (e + p) else 0
  match Exact.classify x with
  | .nan => (Nat.pow 2 e - 1) * Nat.pow 2 p + Nat.pow 2 (p - 1)
  | .inf neg => sign neg + (Nat.pow 2 e - 1) * Nat.pow 2 p
  | .finite neg m k => sign neg + magnitudeWord e p m k

def floatWord (f : SampleFormat) (x : Float) : Nat :=
  match f.bytes with
  | 2 => nearestWord 5 10 x
  | 4 => nearestWord 8 23 x
  | _ => x.toBits.toNat

def value (f : SampleFormat) (word : Nat) : Number :=
  match f.kind with
  | .unsigned => .int word
  | .signed => .int (signedValue (8 * f.bytes) word)
  | .float =>
    match f.bytes with
    | 2 => .float (floatValue 5 10 word)
    | 4 => .float (floatValue 8 23 word)
    | 8 => .float (Float.ofBits (UInt64.ofNat word))
    | _ => .float (extendedValue word)

end SampleFormat

structure Samples where
  format : SampleFormat
  channels : Option Nat
  words : List Nat
  deriving DecidableEq, Repr

namespace Samples

def frames (s : Samples) : Nat :=
  match s.channels with
  | none => s.words.length
  | some c => s.words.length / c

def slice (s : Samples) (lo hi : Nat) : List Nat :=
  let c := s.channels.getD 1
  (s.words.drop (lo * c)).take ((hi - lo) * c)

def values (s : Samples) : List Number := s.words.map s.format.value

def placeOf (s : Samples) (i : Int) : Nat := min s.frames (if i < 0 then i + s.frames else i).toNat

def between (s : Samples) (lo hi : Int) : Samples :=
  { s with words := s.slice (s.placeOf lo) (s.placeOf hi) }

end Samples

structure Sound where
  rate : Nat
  samples : Samples
  deriving DecidableEq, Repr

end Jumpcut.Wave
