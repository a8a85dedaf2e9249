import Jumpcut.Media.Extractor
import Jumpcut.Progress
import Jumpcut.Timeline.Basic
import Jumpcut.Wave.Reader
import Jumpcut.Wave.Writer

/-!
The sound of a timeline. Each layer becomes a wave file: its clips are cut out of their sources, go
through filters if they change speed or volume, and are added where they start.
-/
namespace Jumpcut

open Wave

namespace Wave

namespace SampleFormat

def takes (f g : SampleFormat) : Bool :=
  match f.kind, g.kind with
  | .float, _ => true
  | .signed, .float => false
  | .signed, _ => true
  | .unsigned, k => k == .unsigned

/-- The word of the first format for the sum of two words. Whole numbers wrap around. -/
def sum (f g : SampleFormat) (a b : Nat) : Nat :=
  match f.value a, g.value b with
  | .int x, .int y => ((x + y) % (Nat.pow 256 f.bytes : Nat)).toNat
  | x, y => f.floatWord (x.toFloat.toOption.getD 0.0 + y.toFloat.toOption.getD 0.0)

end SampleFormat

namespace Samples

def silence (f : SampleFormat) (n : Nat) : Samples := ⟨f, some 2, List.replicate (2 * n) 0⟩

/-- The words of `n` stereo moments that sound makes. A single moment is repeated, and so is a
plain row of one or two samples. -/
def spread (s : Samples) (n : Nat) : Except Fault (List Nat) :=
  match s.channels with
  | some 2 =>
    if s.frames = n then .ok s.words
    else if s.frames = 1 then .ok (List.replicate n s.words).flatten
    else .error .badValue
  | some _ => .error .badValue
  | none =>
    match s.words with
    | [w] => .ok (List.replicate (2 * n) w)
    | [a, b] => .ok (List.replicate n [a, b]).flatten
    | _ => .error .badValue

def add (buf : Samples) (lo hi : Nat) (s : Samples) : Except Fault Samples := do
  if !buf.format.takes s.format then throw .wrongKind
  let old := buf.slice lo hi
  let new ← s.spread (hi - lo)
  return { buf with
    words := buf.words.take (2 * lo) ++ List.zipWith (buf.format.sum s.format) old new ++
      buf.words.drop (2 * lo + old.length) }

def mix (buf : Samples) (start : Int) (s : Samples) : Except Fault Samples :=
  if (buf.frames : Int) < start + s.frames then
    buf.add (buf.placeOf start) buf.frames (s.between 0 (buf.frames - start))
  else buf.add (buf.placeOf start) (buf.placeOf (start + s.frames)) s

end Samples

end Wave

namespace AudioClip

def sampleAt (rate : Int) (tb : Rat) (tick : Int) : Int := ((tick * rate : Int) / tb : Rat).floor

def cut (c : AudioClip) (rate : Int) (tb : Rat) (s : Samples) : Samples :=
  s.between (sampleAt rate tb c.offset) (min (sampleAt rate tb (c.offset + c.dur)) s.frames)

/-- How often one half goes before the last factor: as long as half of what is left is still above
the speed. -/
def halvings (speed : Rat) : (most : Nat) → (start : Rat) → Nat
  | 0, _ => 0
  | most + 1, start => if speed < start / 2 then halvings speed most (start / 2) + 1 else 0

/-- How often one half can be halved again before a binary64 number has nothing left. -/
def mostHalvings : Nat := 1073

def tempoFactors (speed : Number) : Except Fault (List Number) :=
  if Number.le (.float 0.5) speed then .ok [speed]
  else do
    let n := ((speed.toRat?).map (halvings · mostHalvings (1 / 2))).getD 0
    let start := (Exact.toFloat? (1 / 2 ^ (n + 1))).getD 0.0
    return List.replicate n (.float 0.5) ++ [← speed.div (.float start)]

def tempoFilters (speed : Number) : Except Fault (List String) :=
  if speed.eqv 1 then .ok []
  else if Number.lt 10000 speed then do
    return List.replicate 3 ("atempo=" ++ (← speed.text) ++ "^.33333")
  else if Number.lt 100 speed then do
    return List.replicate 2 ("atempo=sqrt(" ++ (← speed.text) ++ ")")
  else do return (← (← tempoFactors speed).mapM Number.text).map ("atempo=" ++ ·)

def volumeFilters (c : AudioClip) : List String :=
  let plain := match c.volume with
    | .number x => x.eqv 1
    | .text _ => false
  if plain then [] else ["volume=" ++ c.volume.display]

def filters (c : AudioClip) : Except Fault (List String) := do
  return (← tempoFilters c.speed) ++ c.volumeFilters

def soundName (c : AudioClip) : String := c.src.display ++ "-" ++ toString c.stream

end AudioClip

def bufferLength (rate : Int) (tb : Rat) (last : AudioClip) : Except Fault Int := do
  if tb = 0 then throw .divisionByZero
  let stop ← Number.add (.int last.start) (← last.time)
  let n ← (← Number.div (← stop.mul (.int rate)) (.frac tb)).round
  return max n ((rate : Rat) / tb).floor

structure SoundWork where
  heard : List (String × Samples)
  turn : Nat

namespace SoundWork

def begin : SoundWork := ⟨[], 0⟩

end SoundWork

namespace Timeline

def readSound (path : String) : Session Samples := do
  let bytes ← Session.readBytes path
  return (← Session.ofExcept (read bytes.toList)).samples

def writeSound (path : String) (rate : Int) (s : Samples) : Session Unit := do
  let bytes ← Session.ofExcept (write rate s)
  Session.writeBytes path ⟨bytes.toArray⟩

def sourceOf (t : Timeline) (c : AudioClip) : Except Fault Source :=
  match c.src with
  | .text label => t.source label
  | .number _ => .error .noKey

def sourceSound (t : Timeline) (x : Extractor) (w : SoundWork) (c : AudioClip) :
    Session (Samples × SoundWork) := do
  match w.heard.lookup c.soundName with
  | some s => return (s, w)
  | none =>
    let src ← Session.ofExcept (t.sourceOf c)
    let s ← readSound (← x.audio src.path c.src.display c.stream)
    return (s, { w with heard := w.heard ++ [(c.soundName, s)] })

def clipSound (t : Timeline) (x : Extractor) (w : SoundWork) (c : AudioClip) (s : Samples) :
    Session (Samples × SoundWork) := do
  let cut := c.cut t.rate t.tb s
  match ← Session.ofExcept c.filters with
  | [] => return (cut, w)
  | fs =>
    let file := Path.join x.temp ("af" ++ toString w.turn ++ ".wav")
    let out := Path.join x.temp ("af" ++ toString w.turn ++ "_out.wav")
    writeSound file t.rate cut
    x.transcoder.run ["-i", file, "-af", ",".intercalate fs, out]
    return (← readSound out, { w with turn := (w.turn + 1) % 3 })

def newBuffer (t : Timeline) (w : SoundWork) (last : AudioClip) : Except Fault Samples := do
  let n ← bufferLength t.rate t.tb last
  if n ≤ 0 then throw .badValue
  match w.heard with
  | (_, s) :: _ => return .silence s.format n.toNat
  | [] => throw .badValue

def bufferPath (x : Extractor) : String := Path.join x.temp "asdf.map"

def saveBuffer (x : Extractor) (buf : Samples) : Session Unit :=
  Session.writeBytes (bufferPath x)
    ⟨(buf.words.flatMap (buf.format.order.toBytes buf.format.bytes)).toArray⟩

def keeping {α : Type} (x : Extractor) (buf : Option Samples) (act : Session α) : Session α :=
  try act catch e => do
    buf.forM (saveBuffer x)
    throw e

def addClip (t : Timeline) (x : Extractor) (bar : Bar) (k : Nat) (w : SoundWork)
    (buf s : Samples) (c : AudioClip) : Session (SoundWork × Samples) := do
  let (s, w) ← keeping x (some buf) (clipSound t x w c s)
  let buf ← keeping x (some buf)
    (Session.ofExcept (buf.mix (AudioClip.sampleAt t.rate t.tb c.start) s))
  keeping x (some buf) (bar.tick (.int k))
  return (w, buf)

def mixClips (t : Timeline) (x : Extractor) (bar : Bar) (last : AudioClip) :
    (k : Nat) → SoundWork → Option Samples → List AudioClip →
    Session (SoundWork × Option Samples)
  | _, w, buf, [] => return (w, buf)
  | k, w, buf, c :: cs => do
    let (s, w) ← keeping x buf (sourceSound t x w c)
    let buf ← Session.ofExcept (buf.elim (newBuffer t w last) .ok)
    let (w, buf) ← addClip t x bar k w buf s c
    mixClips t x bar last (k + 1) w (some buf) cs

def mixLayer (t : Timeline) (x : Extractor) (bar : Bar) (w : SoundWork) (layer : List AudioClip) :
    Session (SoundWork × Option Samples) :=
  match layer.getLast? with
  | some last => mixClips t x bar last 0 w none layer
  | none => return (w, none)

def writeLayer (t : Timeline) (x : Extractor) (path : String) : Option Samples → Session Unit
  | some buf => do
    saveBuffer x buf
    writeSound path t.rate buf
  | none => return

def renderSounds (t : Timeline) (x : Extractor) (bar : Bar) :
    (l : Nat) → SoundWork → List (List AudioClip) → Session (List String)
  | _, _, [] => return []
  | l, w, layer :: layers => do
    let bar ← bar.start (.int layer.length) "Creating new audio"
    let path := Path.join x.temp ("new" ++ toString l ++ ".wav")
    let (w, buf) ← mixLayer t x bar w layer
    writeLayer t x path buf
    Bar.finish
    return path :: (← renderSounds t x bar (l + 1) w layers)

def renderSound (t : Timeline) (x : Extractor) (bar : Bar) : Session (List String) := do
  if t.a.head?.all (·.isEmpty) then x.console.fail "Trying to render empty audio timeline"
  else
    let paths ← renderSounds t x bar 0 .begin t.a
    try Session.removeFile (bufferPath x) catch _ => pure ()
    return paths

end Timeline

end Jumpcut
