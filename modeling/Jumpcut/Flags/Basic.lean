import Jumpcut.Fault

/-!
Flags say for each tick of a medium whether it is kept. Operations on them: painting ranges,
dropping short runs, widening and narrowing runs, and combining.
-/
namespace Jumpcut

abbrev Flags := List Bool

def paint {α : Type} (lo hi : Nat) (v : α) (xs : List α) : List α :=
  xs.mapIdx fun k x => if lo ≤ k ∧ k < hi then v else x

/-- The position that an endpoint of a range stands for in a list of length `n`: a negative one
counts from the end, and none lies outside. -/
def endpoint (n : Nat) (i : Int) : Nat :=
  if i < 0 then (i + n).toNat else min i.toNat n

namespace Flags

def run (v w : Bool) (lim : Int) (n : Nat) (len : Int) : Flags :=
  List.replicate n (if len < lim then w else v)

/-- Rewrites the runs of `v`, with `n` ticks of a run already read. A run that reaches the end
counts one tick less. -/
def dropShortFrom (v w : Bool) (lim : Int) (n : Nat) : Flags → Flags
  | [] => run v w lim n ((n : Int) - 1)
  | x :: xs =>
    if x = v then dropShortFrom v w lim (n + 1) xs
    else run v w lim n n ++ x :: dropShortFrom v w lim 0 xs

def dropShort (v w : Bool) (lim : Int) (xs : Flags) : Flags := dropShortFrom v w lim 0 xs

def cook (minClip minCut : Int) (xs : Flags) : Flags :=
  dropShort false true minCut (dropShort true false minClip xs)

def edgesFrom (v : Bool) (k : Nat) (prev : Bool) : Flags → List Nat
  | [] => []
  | x :: xs =>
    if x ≠ prev ∧ x = v then k :: edgesFrom v (k + 1) x xs else edgesFrom v (k + 1) x xs

def edges (v : Bool) : Flags → List Nat
  | [] => []
  | x :: xs => edgesFrom v 1 x xs

/-- Widens (positive) or narrows (negative) every clip by `start` ticks at its beginning and by
`stop` ticks at its end. -/
def margin (start stop : Int) (xs : Flags) : Flags :=
  let starts := edges true xs
  let stops := edges false xs
  let n : Int := xs.length
  let early (ys : Flags) (i : Nat) : Flags :=
    if 0 < start then paint (max ((i : Int) - start) 0).toNat i true ys
    else if start < 0 then paint i (min ((i : Int) - start) n).toNat false ys
    else ys
  let late (ys : Flags) (i : Nat) : Flags :=
    if 0 < stop then paint i (min ((i : Int) + stop) n).toNat true ys
    else if stop < 0 then paint (max ((i : Int) + stop) 0).toNat i false ys
    else ys
  stops.foldl late (starts.foldl early xs)

def zipWith (f : Bool → Bool → Bool) : Flags → Flags → Flags
  | [], ys => ys.map (f false)
  | xs, [] => xs.map (f · false)
  | x :: xs, y :: ys => f x y :: zipWith f xs ys

/-- For each start flag at `i`, keeps from `i` up to the position that the first stop flag from
`i` on has when counted from `i`. -/
def span (starts stops : Flags) : Flags :=
  let step (acc : Flags) (i : Nat) (on : Bool) : Flags :=
    if on then
      match (stops.drop i).findIdx? id with
      | some k => paint i k true acc
      | none => acc
    else acc
  (starts.zipIdx).foldl (fun acc p => step acc p.2 p.1) (starts.map fun _ => false)

end Flags

end Jumpcut
