import Jumpcut.Analysis.Cache
import Jumpcut.Media.Extractor
import Jumpcut.Progress
import Jumpcut.Wave.Reader

namespace Jumpcut

structure Setup where
  src : Source
  extractor : Extractor
  strict : Bool
  tb : Rat
  bar : Bar
  temp : String
  console : Console

namespace Setup

def sound (s : Setup) (stream : Int) : Session Wave.Sound := do
  let path ← s.extractor.audio s.src.path s.src.label stream
  Session.ofExcept (Wave.read (← Session.readBytes path).toList)

def tracks (s : Setup) : Session (List VideoTrack) := do
  return ((← Session.medium? s.src.path).map (·.video)).getD []

end Setup

def samplesPerTick (rate : Nat) (tb : Rat) : Except Fault Rat :=
  if tb = 0 then .error .divisionByZero else .ok (rate / tb)

def soundTicks (count rate : Nat) (tb : Rat) : Except Fault Rat := do
  let per ← samplesPerTick rate tb
  if per = 0 then .error .divisionByZero else return count / per

def loudnessKey (tb : Rat) (stream : Int) : Cache.Key := ⟨"audio", tb, [("stream", .int stream)]⟩

def floatTextOf (q : Rat) : Except Fault String := do
  return Decimal.plain.float (← Number.nearestFloat q)

def Setup.length (s : Setup) : Session Int := do
  if s.src.audios.isEmpty then
    match ← s.tracks with
    | [] => s.console.fail "Could not get media duration"
    | v :: _ =>
      let ticks := Exact.trunc (v.duration * v.timeBase * s.tb)
      s.console.note ("Video duration: " ++ toString ticks)
      return ticks
  else
    match ← Cache.stored s.temp s.src.path (loudnessKey s.tb 0) with
    | some l => return l.values.length
    | none =>
      let sound ← s.sound 0
      let exact ← Session.ofExcept (soundTicks sound.samples.frames sound.rate s.tb)
      let ticks := Exact.trunc exact
      s.console.note ("Audio Length: " ++ toString ticks)
      s.console.note ("... without rounding: " ++ (← Session.ofExcept (floatTextOf exact)))
      return ticks

end Jumpcut
