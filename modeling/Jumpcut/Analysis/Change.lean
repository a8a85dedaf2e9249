import Jumpcut.Analysis.Setup

namespace Jumpcut

namespace Picture

def brightness (r g b : UInt8) : Nat :=
  (r.toNat * 19595 + g.toNat * 38470 + b.toNat * 7471 + 0x8000) / 65536

def brightnesses : List UInt8 → List Nat
  | r :: g :: b :: bs => brightness r g b :: brightnesses bs
  | _ => []

def differing {α : Type} [BEq α] (xs ys : List α) : Nat :=
  (xs.zip ys).countP fun p => p.1 != p.2

end Picture

structure Shades where
  (width height : Nat)
  values : List Nat

def Picture.shades (p : Picture) : Shades := ⟨p.width, p.height, brightnesses p.bytes⟩

/-- What becomes of a picture before it is compared: it is scaled to a width, and its shades are
blurred by a radius. -/
structure Filter where
  scale : (width : Int) → Picture → Picture
  blur : (radius : Int) → Shades → Shades

namespace Filter

def clear : Filter := ⟨fun _ p => p, fun _ s => s⟩

def view (f : Filter) (width radius : Int) (p : Picture) : List Nat :=
  let s := (f.scale width p).shades
  (if 0 < radius then f.blur radius s else s).values

end Filter

inductive Comparison : Type
  | brightness : (view : Picture → List Nat) → (pixels : Int) → Comparison
  | colors : Comparison

def Comparison.kind : Comparison → LevelKind
  | .brightness _ _ => .share
  | .colors => .count

def Comparison.measure (a b : Picture) : Comparison → Except Fault Number
  | .brightness view pixels =>
    Number.div (.int (Picture.differing (view a) (view b))) (.int pixels)
  | .colors => .ok (.int (Picture.differing a.bytes b.bytes))

/-- Levels in the making: cells for ticks, the tick of the latest frame and its picture. -/
structure Sweep where
  cells : List Number
  index : Int
  previous : Option Picture

namespace Sweep

def initialSize : Nat := 1024

def start (kind : LevelKind) : Sweep := ⟨(Levels.zero kind initialSize).values, 0, none⟩

def tickOf (tb : Rat) (f : Frame) : Except Fault Int := do
  (← Number.mul (.float f.time) (.frac tb)).trunc

def grow (kind : LevelKind) (index : Int) (cells : List Number) : List Number :=
  if (cells.length : Int) - 1 < index then cells ++ (Levels.zero kind cells.length).values
  else cells

def put (cells : List Number) (index : Int) (v : Number) : Except Fault (List Number) :=
  let i := if index < 0 then index + cells.length else index
  if 0 ≤ i ∧ i < cells.length then .ok (cells.set i.toNat v) else .error .outOfRange

def add (c : Comparison) (s : Sweep) (index : Int) (picture : Picture) : Except Fault Sweep := do
  let cells := grow c.kind index s.cells
  match s.previous with
  | none => return ⟨cells, index, some picture⟩
  | some p => return ⟨← put cells index (← c.measure p picture), index, some picture⟩

def levels (s : Sweep) (kind : LevelKind) : Levels :=
  ⟨kind, s.cells.take (endpoint s.cells.length s.index)⟩

end Sweep

def Setup.sweep (s : Setup) (bar : Bar) (c : Comparison) : Sweep → List Frame → Session Sweep
  | sw, [] => return sw
  | sw, f :: fs => do
    let index ← Session.ofExcept (Sweep.tickOf s.tb f)
    bar.tick (.int index)
    let sw ← Session.ofExcept (sw.add c index f.picture)
    s.sweep bar c sw fs

def Setup.change (s : Setup) (stream : Int) (key : Cache.Key) (title : String) (kind : LevelKind)
    (comparison : Session Comparison) : Session Levels := do
  if (s.src.videos.length : Int) ≤ stream then
    if s.strict then s.console.fail ("Video stream '" ++ toString stream ++ "' does not exist.")
    else return .zero kind (← s.length)
  else
    match ← Cache.stored s.temp s.src.path key with
    | some l => return l
    | none =>
      match (← s.tracks)[stream.toNat]? with
      | none => throw .outOfRange
      | some v =>
        match v.averageRate with
        | none => throw .wrongKind
        | some rate =>
          let bar ← s.bar.start (.int (Exact.trunc (v.duration * v.timeBase * rate))) title
          let c ← comparison
          let sw ← s.sweep bar c (Sweep.start kind) v.frames
          Bar.finish
          Cache.save s.temp s.src.path key (sw.levels kind)

end Jumpcut
