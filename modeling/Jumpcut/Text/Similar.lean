/-!
How alike two words are: twice the number of characters in common blocks, over the number of all
characters. The longest common block is found first, then the same is done on both sides of it.
-/
namespace Jumpcut.Text

def commonFront : List Char → List Char → Nat
  | a :: as, b :: bs => if a = b then commonFront as bs + 1 else 0
  | _, _ => 0

structure Block where
  (left right size : Nat)
  deriving DecidableEq, Repr

def blockAt (left : Nat) (as : List Char) : (right : Nat) → Block → List Char → Block
  | _, best, [] => best
  | j, best, b :: bs =>
    let n := commonFront as (b :: bs)
    blockAt left as (j + 1) (if best.size < n then ⟨left, j, n⟩ else best) bs

def longestBlock (bs : List Char) : (left : Nat) → Block → List Char → Block
  | _, best, [] => best
  | i, best, a :: as => longestBlock bs (i + 1) (blockAt i (a :: as) 0 best bs) as

def matched : (fuel : Nat) → List Char → List Char → Nat
  | 0, _, _ => 0
  | fuel + 1, as, bs =>
    let b := longestBlock bs 0 ⟨0, 0, 0⟩ as
    if b.size = 0 then 0
    else b.size + matched fuel (as.take b.left) (bs.take b.right) +
      matched fuel (as.drop (b.left + b.size)) (bs.drop (b.right + b.size))

def likeness (a b : String) : Rat :=
  let as := a.toList
  let bs := b.toList
  let total := as.length + bs.length
  if total = 0 then 1 else mkRat (2 * matched (total + 1) as bs) total

def closeMatches (word : String) (candidates : List String) : List String :=
  let scored := (candidates.map fun c => (likeness c word, c)).filter fun p => mkRat 3 5 ≤ p.1
  let before (p q : Rat × String) : Bool := q.1 < p.1 || (p.1 == q.1 && !(p.2 < q.2))
  ((scored.mergeSort before).take 3).map (·.2)

end Jumpcut.Text
