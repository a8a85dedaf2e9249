import Jumpcut.Render.Sprite

namespace Jumpcut

namespace Sprite

def ofPicture (p : Picture) : Sprite :=
  let bytes := p.bytes.toArray
  ⟨p.width, p.height, fun x y =>
    let channel (k : Nat) : UInt8 := bytes.getD (3 * (y * p.width + x) + k) 0
    ⟨channel 0, channel 1, channel 2, 255⟩⟩

def scaled (s : Sprite) (w h : Nat) : Sprite :=
  ⟨w, h, fun x y => s.pixel (x * s.width / w) (y * s.height / h)⟩

end Sprite

namespace Picture

def sideFor (side other length : Nat) : Except Fault Nat := do
  let ratio ← Number.div (.int side) (.int other)
  return (← (← ratio.mul (.int length)).round).toNat

def sizeWithin (w h boxW boxH : Nat) : Except Fault (Nat × Nat) := do
  if w * boxH = boxW * h then return (boxW, boxH)
  else if boxW * h < w * boxH then return (boxW, ← sideFor h w boxW)
  else return (← sideFor w h boxH, boxH)

def inset (box side : Nat) : Int := Exact.round (((box : Int) - side : Int) / 2 : Rat)

def padded (p : Picture) (boxW boxH : Nat) (back : Pixel) : Except Fault Picture := do
  let (w, h) ← sizeWithin p.width p.height boxW boxH
  if w = 0 ∨ h = 0 then throw .badValue
  let box := Picture.plain boxW boxH back.red back.green back.blue
  let s := (Sprite.ofPicture p).scaled w h
  return if w = boxW then box.paint s 0 (inset boxH h) else box.paint s (inset boxW w) 0

end Picture

end Jumpcut
