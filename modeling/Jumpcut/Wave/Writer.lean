import Jumpcut.Fault
import Jumpcut.Wave.Sample

namespace Jumpcut.Wave

def field (w : Nat) (n : Int) : Except Fault (List UInt8) :=
  if 0 ≤ n ∧ n < Int.pow 256 w then .ok (littleBytes w n.toNat) else .error .shortRead

def bytesOf (s : String) : List UInt8 := s.toList.map fun c => UInt8.ofNat c.toNat

def formatSection (rate : Int) (f : SampleFormat) (frames : Nat) (channels : Nat) :
    Except Fault (List UInt8) := do
  let isFloat := f.kind == .float
  let fields := [← field 2 (if isFloat then 3 else 1), ← field 2 channels, ← field 4 rate,
    ← field 4 (rate * f.bytes * channels), ← field 2 (channels * f.bytes), ← field 2 (f.bytes * 8)]
  let body := fields.flatten ++ (if isFloat then [0, 0] else [])
  let head := bytesOf "fmt " ++ littleBytes 4 body.length ++ body
  if isFloat then return head ++ bytesOf "fact" ++ littleBytes 4 4 ++ (← field 4 frames)
  else return head

def preamble (rate : Int) (f : SampleFormat) (frames channels count : Nat) :
    Except Fault (List UInt8) := do
  let header ← formatSection rate f frames channels
  let size := count * f.bytes
  if 0xffffffff < header.length + size then .error (.wave .tooLarge)
  else
    let total ← field 4 (12 + header.length + size : Nat)
    return bytesOf "RIFF" ++ total ++ bytesOf "WAVE" ++ header ++ bytesOf "data" ++
      littleBytes 4 size

def write (rate : Int) (s : Samples) : Except Fault (List UInt8) := do
  let front ← preamble rate s.format s.frames (s.channels.getD 1) s.words.length
  return front ++ s.words.flatMap (littleBytes s.format.bytes)

end Jumpcut.Wave
