import Jumpcut.Media.Basic
import Jumpcut.Render.Pixel
import Jumpcut.Timeline.Object

namespace Jumpcut

open Pixel

structure Sprite where
  (width height : Nat)
  pixel : Nat → Nat → Pixel

namespace Sprite

def box (w h stroke : Nat) (fill border : Pixel) : Sprite :=
  ⟨w, h, fun x y =>
    if x < stroke ∨ y < stroke ∨ w < x + stroke ∨ h < y + stroke then border else fill⟩

def inEllipse (w h margin x y : Nat) : Bool :=
  let a : Int := (w : Int) + 1 - 2 * margin
  let b : Int := (h : Int) + 1 - 2 * margin
  let dx : Int := 2 * (x : Int) - w
  let dy : Int := 2 * (y : Int) - h
  0 < a && 0 < b && dx * dx * (b * b) + dy * dy * (a * a) ≤ a * a * (b * b)

def ellipse (w h stroke : Nat) (fill border : Pixel) : Sprite :=
  ⟨w + 1, h, fun x y =>
    if inEllipse w h stroke x y then fill
    else if inEllipse w h 0 x y then border
    else .clear⟩

def still (s : Still) (stroke : Nat) (border : Pixel) : Sprite :=
  ⟨s.width + 2 * stroke, s.height + 2 * stroke, fun x y =>
    if x < stroke ∨ y < stroke ∨ s.width + stroke ≤ x ∨ s.height + stroke ≤ y then border
    else ⟨s.red, s.green, s.blue, s.alpha⟩⟩

def map (f : Pixel → Pixel) (s : Sprite) : Sprite := { s with pixel := fun x y => f (s.pixel x y) }

def turned (s : Sprite) : Sprite :=
  ⟨s.height, s.width, fun x y => s.pixel (s.width - 1 - y) x⟩

def quarters (angle : Number) : Nat :=
  match angle.toRat? with
  | none => 0
  | some q =>
    let turns := q / 90
    if turns.den = 1 then (turns.num % 4).toNat else 0

def rotated (angle : Number) (s : Sprite) : Sprite := (quarters angle).repeat turned s

def pixel? (s : Sprite) (x y : Int) : Option Pixel :=
  if 0 ≤ x ∧ x < s.width ∧ 0 ≤ y ∧ y < s.height then some (s.pixel x.toNat y.toNat) else none

def anchored (x y w h : Int) : (anchor : String) → Int × Int
  | "ce" => ((2 * x - w).fdiv 2, (2 * y - h).fdiv 2)
  | "tr" => (x - w, y)
  | "bl" => (x, y - h)
  | "br" => (x - w, y - h)
  | _ => (x, y)

end Sprite

namespace Picture

def paint (p : Picture) (s : Sprite) (x y : Int) : Picture :=
  let old := p.bytes.toArray
  { p with bytes := (List.range (p.width * p.height)).flatMap fun i =>
      let channel (k : Nat) : UInt8 := old.getD (3 * i + k) 0
      match s.pixel? (i % p.width - x) (i / p.width - y) with
      | none => [channel 0, channel 1, channel 2]
      | some q => q.laidOn (channel 0) (channel 1) (channel 2) }

end Picture

namespace Drawing

def checked (s : Sprite) : Except Fault Sprite :=
  if s.width = 0 ∨ s.height = 0 then .error .badValue else .ok s

def boxed (d : Drawing) (make : (w h stroke : Nat) → (fill border : Pixel) → Sprite)
    (least w h : Int) (fill : String) : Except Fault Sprite := do
  if w < least ∨ h < 1 then throw .badValue
  let border ← named d.strokeColor
  return make w.toNat h.toNat d.stroke.toNat (← named fill) border

/-- The sprite of a drawing. Text has none: only what leaves the picture alone is drawn. -/
def sprite? (d : Drawing) (images : List (String × Still)) : Except Fault (Option Sprite) :=
  match d.shape with
  | .rect w h fill => some <$> d.boxed Sprite.box 1 w h fill
  | .ellipse w h fill => some <$> d.boxed Sprite.ellipse 0 w h fill
  | .image src => do
    match images.lookup src.display with
    | none => throw .noKey
    | some s =>
      let border ← if 0 < d.stroke then named d.strokeColor else pure .clear
      some <$> checked (.still s d.stroke.toNat border)
  | .text content _ _ _ fill => do
    if !content.toList.all (·.toNat < 256) then throw .unencodable
    let _ ← named fill
    if 0 < d.stroke then let _ ← named d.strokeColor
    if content.toList.all (· == '\n') then throw .badValue
    return none

def alpha (d : Drawing) : Except Fault UInt8 := do
  let n ← (← d.opacity.mul 255).trunc
  return UInt8.ofNat (min 255 n.toNat)

def paint (d : Drawing) (images : List (String × Still)) (p : Picture) : Except Fault Picture := do
  match ← d.sprite? images with
  | none => return p
  | some s =>
    let s := ((s.map resized).rotated d.rotate).map (faded (← d.alpha))
    let (x, y) := Sprite.anchored d.x d.y s.width s.height d.anchor
    return p.paint s x y

end Drawing

end Jumpcut
