import Jumpcut.Analysis.Setup

namespace Jumpcut.Loudness

def larger (x y : Float) : Float := if x.isNaN || y < x then x else y
def smaller (x y : Float) : Float := if x.isNaN || x < y then x else y

def peak (xs : List Float) : Except Fault Float :=
  match xs with
  | [] => .error .badValue
  | x :: xs =>
    let high := xs.foldl larger x
    let low := -(xs.foldl smaller x)
    .ok (if high < low then low else high)

def window (per : Rat) (count : Nat) (i : Nat) : Nat × Nat :=
  ((Exact.trunc (i * per)).toNat, min (Exact.trunc ((i + 1) * per)).toNat count)

def floatsOf (s : Wave.Samples) (words : List Nat) : Except Fault (List Float) :=
  words.mapM fun w => (s.format.value w).toFloat

def levelAt (s : Wave.Samples) (per : Rat) (loudest : Float) (i : Nat) : Except Fault Float := do
  let (lo, hi) := window per s.frames i
  return (← peak (← floatsOf s (s.slice lo hi))) / loudest

def levels (s : Wave.Samples) (per : Rat) (loudest : Float) (ticks : Nat) :
    Except Fault (List Float) :=
  (List.range ticks).mapM (levelAt s per loudest)

end Loudness

def Bar.tickAll (b : Bar) (ticks : Nat) : Session Unit := do
  for i in List.range ticks do
    if i % 500 = 0 then b.tick (.int i)

def Setup.loudness (s : Setup) (stream : Int) : Session Levels := do
  if (s.src.audios.length : Int) ≤ stream then
    if s.strict then s.console.fail ("Audio stream '" ++ toString stream ++ "' does not exist.")
    else return .zero .share (← s.length)
  else
    let key := loudnessKey s.tb stream
    match ← Cache.stored s.temp s.src.path key with
    | some l => return l
    | none =>
      let sound ← s.sound stream
      let samples := sound.samples
      let loudest ← Session.ofExcept do Loudness.peak (← Loudness.floatsOf samples samples.words)
      s.console.note ("Max volume: " ++ Decimal.plain.float loudest)
      let per ← Session.ofExcept (samplesPerTick sound.rate s.tb)
      let exact ← Session.ofExcept (soundTicks samples.frames sound.rate s.tb)
      let ticks := Exact.trunc exact
      s.console.note ("analyze: Audio Length: " ++ toString ticks)
      s.console.note ("... no rounding: " ++ (← Session.ofExcept (floatTextOf exact)))
      let bar ← s.bar.start (.int ticks) "Analyzing audio volume"
      if loudest == 0.0 then return .zero .share ticks
      else
        bar.tickAll ticks.toNat
        let levels ← Session.ofExcept (Loudness.levels samples per loudest ticks.toNat)
        Bar.finish
        Cache.save s.temp s.src.path key ⟨.share, levels.map .float⟩

end Jumpcut
