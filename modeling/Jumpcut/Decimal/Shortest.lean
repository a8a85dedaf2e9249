import Jumpcut.Number.Exact

namespace Jumpcut.Decimal

/-- `0.d₁d₂… * 10 ^ point`, the digits being those of `digits`. -/
structure Digits where
  digits : Nat
  point : Int
  deriving DecidableEq, Repr

def width (n : Nat) : Nat := if n = 0 then 0 else (Nat.toDigits 10 n).length

/-- The position `p` with `10 ^ (p - 1) ≤ v / d < 10 ^ p`. -/
def leading (v d : Nat) : Int :=
  if d ≤ v then width (v / d) else 1 - (width ((d + v - 1) / v - 1) : Int)

/-- Tries grids of `n` digits, `n` growing, and takes the first grid point that lies between
`lo / d` and `hi / d`; of two the one nearer to `v / d`, at equal distance the even one. -/
def search (v lo hi d : Nat) (closed : Bool) (point : Int) : Nat → Nat → Digits
  | 0, _ => ⟨0, 0⟩
  | fuel + 1, n =>
    let t : Int := point - n
    let f := if 0 ≤ t then 1 else Nat.pow 10 (-t).toNat
    let unit := if 0 ≤ t then d * Nat.pow 10 t.toNat else d
    let inside (k : Nat) : Bool :=
      if closed then lo * f ≤ k * unit && k * unit ≤ hi * f
      else lo * f < k * unit && k * unit < hi * f
    let k := v * f / unit
    let below := v * f - k * unit
    let above := (k + 1) * unit - v * f
    let pick (k : Nat) : Digits :=
      if width k > n then ⟨k / 10, point + 1⟩ else ⟨k, point⟩
    match inside k && k ≠ 0, inside (k + 1) with
    | true, true =>
      if below < above then pick k
      else if above < below then pick (k + 1)
      else if k % 2 = 0 then pick k else pick (k + 1)
    | true, false => pick k
    | false, true => pick (k + 1)
    | false, false => search v lo hi d closed point fuel (n + 1)

/-- Shortest digits of `m * 2 ^ e` among the decimals nearer to it than to any other binary64
number. -/
def shortest (m : Nat) (e : Int) : Digits :=
  let d := if 0 ≤ e then 4 else 4 * Nat.pow 2 (-e).toNat
  let s := if 0 ≤ e then Nat.pow 2 e.toNat else 1
  let down := if m = Nat.pow 2 52 ∧ e ≠ -1074 then 1 else 2
  search (4 * m * s) ((4 * m - down) * s) ((4 * m + 2) * s) d (m % 2 = 0)
    (leading (4 * m * s) d) 17 1

structure Layout where
  positionalFrom : Int
  positionalTo : Int
  wholePoint : Bool

def zeros (n : Nat) : String := String.ofList (List.replicate n '0')

def exponentText (e : Int) : String :=
  let body := toString e.natAbs
  (if e < 0 then "e-" else "e+") ++ (if body.length < 2 then "0" ++ body else body)

def Layout.render (l : Layout) (x : Digits) : String :=
  let ds := toString x.digits
  let n : Int := ds.length
  if l.positionalFrom < x.point ∧ x.point ≤ l.positionalTo then
    if x.point ≤ 0 then "0." ++ zeros (-x.point).toNat ++ ds
    else if n ≤ x.point then
      ds ++ zeros (x.point - n).toNat ++ (if l.wholePoint then ".0" else "")
    else
      String.ofList (ds.toList.take x.point.toNat) ++ "." ++
        String.ofList (ds.toList.drop x.point.toNat)
  else
    let body := match ds.toList with
      | [] => ""
      | [c] => String.ofList [c]
      | c :: cs => String.ofList (c :: '.' :: cs)
    body ++ exponentText (x.point - 1)

def Layout.float (l : Layout) (x : Float) : String :=
  match Exact.classify x with
  | .nan => "nan"
  | .inf neg => if neg then "-inf" else "inf"
  | .finite neg m e =>
    let body := if m = 0 then (if l.wholePoint then "0.0" else "0") else l.render (shortest m e)
    if neg then "-" ++ body else body

def plain : Layout := ⟨-4, 16, true⟩

def bare : Layout := ⟨-4, 16, false⟩

end Jumpcut.Decimal
