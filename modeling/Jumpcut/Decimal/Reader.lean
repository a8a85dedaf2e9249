import Jumpcut.Number.Exact
import Jumpcut.Text.Class

/-!
Numbers read from text: integers, binary64 numbers, fractions and complex numbers. Blanks around
a number are ignored and single underscores may stand between digits.
-/
namespace Jumpcut.Decimal

open Text

def digitLimit : Nat := 4300

inductive ReadError : Type
  | malformed | zeroDenominator
  deriving DecidableEq, Repr

def moreDigits : List Char → List Nat × List Char
  | [] => ([], [])
  | c :: cs =>
    match digit? c with
    | some d =>
      let (ds, rest) := moreDigits cs
      (d :: ds, rest)
    | none =>
      match c, cs with
      | '_', c' :: cs' =>
        match digit? c' with
        | some d =>
          let (ds, rest) := moreDigits cs'
          (d :: ds, rest)
        | none => ([], c :: cs)
      | _, _ => ([], c :: cs)

def digitRun : List Char → List Nat × List Char
  | c :: cs =>
    match digit? c with
    | some d =>
      let (ds, rest) := moreDigits cs
      (d :: ds, rest)
    | none => ([], c :: cs)
  | [] => ([], [])

def sign : List Char → Bool × List Char
  | '-' :: cs => (true, cs)
  | '+' :: cs => (false, cs)
  | cs => (false, cs)

def signed (neg : Bool) (n : Nat) : Int := if neg then -(n : Int) else n

def int? (s : String) : Option Int :=
  let (neg, cs) := sign (strip s).toList
  match digitRun cs with
  | (ds, []) =>
    if ds.isEmpty || digitLimit < ds.length then none else some (signed neg (ofDigits ds))
  | _ => none

/-- The binary64 number nearest to `± m * 10 ^ e`, infinite if too large. -/
def nearest (neg : Bool) (m : Nat) (e : Int) : Float :=
  let len : Int := if m = 0 then 0 else (Nat.toDigits 10 m).length
  let x : Float :=
    if m = 0 ∨ len + e < -330 then 0.0
    else if 310 < len + e then 1.0 / 0.0
    else
      let q :=
        if 0 ≤ e then mkRat (m * Nat.pow 10 e.toNat : Nat) 1 else mkRat m (Nat.pow 10 (-e).toNat)
      (Exact.toFloat? q).getD (1.0 / 0.0)
  if neg then -x else x

def exponent (cs : List Char) : Int × List Char :=
  match cs with
  | c :: rest =>
    if c = 'e' ∨ c = 'E' then
      let (neg, body) := sign rest
      match digitRun body with
      | ([], _) => (0, cs)
      | (ds, rest') => (signed neg (ofDigits ds), rest')
    else (0, cs)
  | [] => (0, [])

def decimalFront (cs : List Char) : Option (Nat × Int × List Char) :=
  let (whole, rest) := digitRun cs
  let (frac, rest) :=
    match rest with
    | '.' :: after =>
      let (frac, rest') := digitRun after
      if whole.isEmpty && frac.isEmpty then ([], rest) else (frac, rest')
    | _ => ([], rest)
  if whole.isEmpty && frac.isEmpty then none
  else
    let (e, rest) := exponent rest
    some (ofDigits (whole ++ frac), e - frac.length, rest)

def lower (cs : List Char) : List Char := cs.map Char.toLower

def floatFront (cs : List Char) : Option (Float × List Char) :=
  let (neg, body) := sign cs
  match decimalFront body with
  | some (m, e, rest) => some (nearest neg m e, rest)
  | none =>
    let word (w : String) : Bool := lower (body.take w.length) == w.toList
    let inf : Float := if neg then -(1.0 / 0.0) else 1.0 / 0.0
    if word "infinity" then some (inf, body.drop 8)
    else if word "inf" then some (inf, body.drop 3)
    else if word "nan" then some (0.0 / 0.0, body.drop 3)
    else none

def float? (s : String) : Option Float :=
  match floatFront (strip s).toList with
  | some (x, []) => some x
  | _ => none

def fraction? (s : String) : Except ReadError Rat :=
  let (neg, cs) := sign (strip s).toList
  let (num, rest) := digitRun cs
  match rest with
  | '/' :: after =>
    match digitRun after with
    | (den, []) =>
      if num.isEmpty || den.isEmpty then .error .malformed
      else if digitLimit < num.length || digitLimit < den.length then .error .malformed
      else if ofDigits den = 0 then .error .zeroDenominator
      else .ok (mkRat (signed neg (ofDigits num)) (ofDigits den))
    | _ => .error .malformed
  | _ =>
    match decimalFront cs with
    | some (m, e, []) =>
      if digitLimit < num.length then .error .malformed
      else if 0 ≤ e then .ok (mkRat (signed neg (m * Nat.pow 10 e.toNat)) 1)
      else .ok (mkRat (signed neg m) (Nat.pow 10 (-e).toNat))
    | _ => .error .malformed

def complex? (unit : Char) (s : String) : Option (Float × Float) :=
  let unitEnd (re im : Float) : List Char → Option (Float × Float)
    | [c] => if c = unit then some (re, im) else none
    | _ => none
  let signUnit (re : Float) : List Char → Option (Float × Float)
    | '+' :: rest => unitEnd re 1.0 rest
    | '-' :: rest => unitEnd re (-1.0) rest
    | rest => unitEnd re 1.0 rest
  let cs := (strip s).toList
  match floatFront cs with
  | some (x, []) => some (x, 0.0)
  | some (x, rest@(c :: _)) =>
    if c = '+' ∨ c = '-' then
      match floatFront rest with
      | some (y, rest') => unitEnd x y rest'
      | none => signUnit x rest
    else unitEnd 0.0 x rest
  | none => signUnit 0.0 cs

end Jumpcut.Decimal
