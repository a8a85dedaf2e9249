import Jumpcut.Number.Basic

namespace Jumpcut

structure Chunk where
  (start stop : Int)
  speed : Number

namespace Chunk

def isCut (c : Chunk) : Bool := c.speed.eqv 99999

def length (c : Chunk) : Int := c.stop - c.start

def exactSpeed (x : Number) : Except Fault Rat :=
  match x.toRat?, x.trunc with
  | some q, _ => .ok q
  | none, .error e => .error e
  | none, .ok _ => .error .wrongKind

def duration (n : Int) (speed : Number) : Except Fault Rat := do
  let s ← exactSpeed speed
  if s = 0 then .error .divisionByZero else return (n : Rat) / s

def ofRunsFrom (speedOf : Int → Except Fault Number) (start next : Int) (v : Int) :
    List Int → Except Fault (List Chunk)
  | [] => do return [⟨start, next, ← speedOf v⟩]
  | x :: xs =>
    if x = v then ofRunsFrom speedOf start (next + 1) v xs
    else do
      let c : Chunk := ⟨start, next, ← speedOf v⟩
      return c :: (← ofRunsFrom speedOf next (next + 1) x xs)

/-- One chunk for each run of equal values. A list of fewer than two values has no chunks. -/
def ofRuns (speedOf : Int → Except Fault Number) : List Int → Except Fault (List Chunk)
  | x :: y :: xs => ofRunsFrom speedOf 0 1 x (y :: xs)
  | _ => .error .unassigned

def speedAt (table : List (Int × Number)) (key : Int) : Except Fault Number :=
  match table.lookup key with
  | some s => .ok s
  | none => .error .noKey

def total : List Chunk → Except Fault Rat
  | [] => .ok 0
  | c :: cs => do
    let d ← if c.isCut then .ok 0 else duration c.length c.speed
    return d + (← total cs)

def shift (n : Int) (c : Chunk) : Chunk := { c with start := c.start + n, stop := c.stop + n }

def mergeFrom (n : Int) : List (List Chunk) → List Chunk
  | [] => []
  | cs :: rest =>
    cs.map (shift n) ++ mergeFrom (match cs.getLast? with
      | some c => n + c.stop
      | none => n) rest

def merge (css : List (List Chunk)) : List Chunk := mergeFrom 0 css

end Chunk

structure Clip where
  (start dur offset : Int)
  speed : Number
  src : String

namespace Clip

/-- Clips of the chunks that are kept. `first` says whether none was kept before, `last` is where
the clip before starts. A clip that would start where the one before does is left out. -/
def ofChunksFrom (src : String) (first : Bool) (last : Option Int) (start : Rat) :
    List Chunk → Except Fault (List Clip)
  | [] => .ok []
  | c :: cs =>
    if c.isCut then ofChunksFrom src first last start cs
    else do
      let place := Exact.round start
      let next := start + (← Chunk.duration c.length c.speed)
      if last = some place then ofChunksFrom src false last next cs
      else
        let clip : Clip := ⟨place, c.length, if first then c.start else c.start + 1, c.speed, src⟩
        return clip :: (← ofChunksFrom src false (some place) next cs)

def ofChunks (src : String) (start : Rat) (cs : List Chunk) : Except Fault (List Clip) :=
  ofChunksFrom src true none start cs

end Clip

end Jumpcut
