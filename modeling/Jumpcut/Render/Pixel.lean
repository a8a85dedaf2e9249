import Jumpcut.Json.Reader
import Jumpcut.Setting.Color

namespace Jumpcut

structure Pixel where
  (red green blue alpha : UInt8)
  deriving DecidableEq, Repr

namespace Pixel

def clear : Pixel := ⟨255, 255, 255, 0⟩

def hexBytes? : List Char → Option (List UInt8)
  | [] => some []
  | [_] => none
  | a :: b :: cs => do
    return UInt8.ofNat (16 * (← Text.hexValue? a) + (← Text.hexValue? b)) :: (← hexBytes? cs)

def ofCode? (digits : List Char) : Option Pixel := do
  let digits := if digits.length ≤ 4 then digits.flatMap fun c => [c, c] else digits
  match ← hexBytes? digits with
  | [r, g, b] => return ⟨r, g, b, 255⟩
  | [r, g, b, a] => return ⟨r, g, b, a⟩
  | _ => none

def named? (text : String) : Option Pixel :=
  let text := text.toLower
  match ((Setting.colorNames.lookup text).getD text).toList with
  | '#' :: digits => ofCode? digits
  | _ => none

def named (text : String) : Except Fault Pixel :=
  match named? text with
  | some p => .ok p
  | none => .error .badValue

def share (a b : Nat) : Nat :=
  let t := a * b + 128
  (t / 256 + t) / 256

def blend (alpha old new : UInt8) : UInt8 :=
  let t := old.toNat * (255 - alpha.toNat) + new.toNat * alpha.toNat + 128
  UInt8.ofNat ((t / 256 + t) / 256)

def settled (alpha c : UInt8) : UInt8 :=
  if alpha = 0 ∨ alpha = 255 then c
  else UInt8.ofNat (min 255 (255 * share c.toNat alpha.toNat / alpha.toNat))

def resized (p : Pixel) : Pixel :=
  let twice (c : UInt8) : UInt8 := settled p.alpha (settled p.alpha c)
  ⟨twice p.red, twice p.green, twice p.blue, p.alpha⟩

def faded (opacity : UInt8) (p : Pixel) : Pixel :=
  { p with alpha := UInt8.ofNat (share p.alpha.toNat opacity.toNat) }

def laidOn (p : Pixel) (r g b : UInt8) : List UInt8 :=
  [blend p.alpha r p.red, blend p.alpha g p.green, blend p.alpha b p.blue]

end Pixel

end Jumpcut
