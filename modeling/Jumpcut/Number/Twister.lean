namespace Jumpcut

structure Twister where
  words : Array UInt32
  next : Nat

namespace Twister

def size : Nat := 624

def word (a : Array UInt32) (i : Nat) : UInt32 := a.getD i 0

def fill (seed : UInt32) : Array UInt32 :=
  (List.range (size - 1)).foldl (fun a k =>
    let p := word a k
    a.push ((1812433253 : UInt32) * (p ^^^ (p >>> 30)) + UInt32.ofNat (k + 1))) #[seed]

structure Stir where
  words : Array UInt32
  (i j : Nat)

def Stir.advance (s : Stir) : Stir :=
  if size ≤ s.i + 1 then ⟨s.words.setIfInBounds 0 (word s.words (size - 1)), 1, s.j⟩
  else { s with i := s.i + 1 }

def mixed (multiplier : UInt32) (a : Array UInt32) (i : Nat) : UInt32 :=
  let p := word a (i - 1)
  word a i ^^^ ((p ^^^ (p >>> 30)) * multiplier)

def stirKey (key : Array UInt32) (s : Stir) : Stir :=
  let v := mixed 1664525 s.words s.i + word key s.j + UInt32.ofNat s.j
  let j := if key.size ≤ s.j + 1 then 0 else s.j + 1
  Stir.advance ⟨s.words.setIfInBounds s.i v, s.i, j⟩

def stirPlain (s : Stir) : Stir :=
  let v := mixed 1566083941 s.words s.i - UInt32.ofNat s.i
  Stir.advance { s with words := s.words.setIfInBounds s.i v }

def keyOf (n : Nat) : Array UInt32 :=
  ((List.range (n.log2 / 32 + 1)).map fun k => UInt32.ofNat (n >>> (32 * k))).toArray

def ofSeed (seed : Int) : Twister :=
  let key := keyOf seed.natAbs
  let s := (List.range (max size key.size)).foldl (fun s _ => stirKey key s) ⟨fill 19650218, 1, 0⟩
  let s := (List.range (size - 1)).foldl (fun s _ => stirPlain s) s
  ⟨s.words.setIfInBounds 0 0x80000000, size⟩

def twist (a : Array UInt32) : Array UInt32 :=
  (List.range size).foldl (fun a k =>
    let y := (word a k &&& 0x80000000) ||| (word a ((k + 1) % size) &&& 0x7fffffff)
    let v := word a ((k + 397) % size) ^^^ (y >>> 1) ^^^ (if y % 2 = 0 then 0 else 0x9908b0df)
    a.setIfInBounds k v) a

def temper (y : UInt32) : UInt32 :=
  let y := y ^^^ (y >>> 11)
  let y := y ^^^ ((y <<< 7) &&& 0x9d2c5680)
  let y := y ^^^ ((y <<< 15) &&& 0xefc60000)
  y ^^^ (y >>> 18)

def draw (t : Twister) : UInt32 × Twister :=
  let t := if size ≤ t.next then ⟨twist t.words, 0⟩ else t
  (temper (word t.words t.next), { t with next := t.next + 1 })

def drawFloat (t : Twister) : Float × Twister :=
  let (a, t) := t.draw
  let (b, t) := t.draw
  (Float.ofScientific ((a >>> 5).toNat * 67108864 + (b >>> 6).toNat) false 0 *
    (1.0 / 9007199254740992.0), t)

def floats : (n : Nat) → Twister → List Float
  | 0, _ => []
  | n + 1, t =>
    let (x, t) := t.drawFloat
    x :: floats n t

end Twister

end Jumpcut
