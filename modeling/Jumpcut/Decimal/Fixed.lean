import Jumpcut.Number.Exact
import Jumpcut.Decimal.Shortest

namespace Jumpcut.Decimal

def withPlaces (places : Nat) (n : Nat) : String :=
  let ds := toString n
  let ds := zeros (places + 1 - ds.length) ++ ds
  if places = 0 then ds
  else
    let cut := ds.length - places
    String.ofList (ds.toList.take cut) ++ "." ++ String.ofList (ds.toList.drop cut)

/-- The magnitude of a rational in units of `10 ^ -places`. -/
def fixedUnits (places : Nat) (q : Rat) : Nat :=
  (Exact.roundDiv (q.num.natAbs * Nat.pow 10 places : Nat) q.den).toNat

def fixed (places : Nat) (x : Float) : String :=
  match Exact.classify x with
  | .nan => "nan"
  | .inf neg => if neg then "-inf" else "inf"
  | .finite neg m e =>
    (if neg then "-" else "") ++ withPlaces places (fixedUnits places (Exact.scaled m e))

def zeroPad (width : Nat) (s : String) : String :=
  match s.toList with
  | '-' :: cs => "-" ++ zeros (width - 1 - cs.length) ++ String.ofList cs
  | cs => zeros (width - cs.length) ++ String.ofList cs

def roundTo (places : Nat) (x : Float) : Float :=
  match Exact.ofFloat? x with
  | none => x
  | some q =>
    let n : Int := fixedUnits places q
    match Exact.toFloat? (mkRat n (Nat.pow 10 places)) with
    | none => x
    | some y => if Exact.isNegative x then -y else y

end Jumpcut.Decimal
