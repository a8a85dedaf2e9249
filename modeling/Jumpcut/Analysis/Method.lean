import Jumpcut.Analysis.Change
import Jumpcut.Analysis.Loudness
import Jumpcut.Number.Twister
import Jumpcut.Setting.Attribute

namespace Jumpcut

namespace Method

open Setting

def audioSchema : Schema :=
  ⟨"Audio", [⟨"threshold", [], .levelThreshold, some (.number (.float 0.04))⟩,
    ⟨"stream", ["track"], .stream, some (.number 0)⟩]⟩

def motionSchema : Schema :=
  ⟨"Motion", [⟨"threshold", [], .threshold, some (.number (.float 0.02))⟩,
    ⟨"stream", ["track"], .natural, some (.number 0)⟩,
    ⟨"blur", [], .natural, some (.number 9)⟩,
    ⟨"width", [], .across, some (.number 400)⟩]⟩

def pixelSchema : Schema :=
  ⟨"Pixeldiff", [⟨"threshold", [], .natural, some (.number 1)⟩,
    ⟨"stream", ["track"], .natural, some (.number 0)⟩]⟩

def randomSchema : Schema :=
  ⟨"Random", [⟨"threshold", [], .threshold, some (.number (.float 0.5))⟩,
    ⟨"seed", [], .integer, some (.number (.int (-1)))⟩]⟩

def schemas : List Schema := [audioSchema, motionSchema, pixelSchema, randomSchema]

def levelsOnly (s : Schema) : Schema := { s with attrs := s.attrs.drop 1 }

abbrev Values := List (String × Raw)

def intOf (vs : Values) (name : String) : Int :=
  match vs.lookup name with
  | some (.number (.int n)) => n
  | _ => 0

def thresholdOf (vs : Values) : Number :=
  match vs.lookup "threshold" with
  | some (.number x) => x
  | _ => 0

def extentOf (src : Source) : Extent :=
  { Extent.none with width := some (match src.videos with
    | v :: _ => v.width
    | [] => 1) }

end Method

namespace Setup

open Method

def motionThrough (f : Filter) (s : Setup) (vs : Method.Values) : Session Levels :=
  s.change (intOf vs "stream") ⟨"motion", s.tb, vs⟩ "Analyzing motion" .share
    (match s.src.videos with
      | v :: _ =>
        pure (.brightness (f.view (intOf vs "width") (intOf vs "blur")) (v.width * v.height))
      | [] => throw .outOfRange)

def motion (s : Setup) (vs : Method.Values) : Session Levels := s.motionThrough .clear vs

def pixels (s : Setup) (vs : Method.Values) : Session Levels :=
  s.change (intOf vs "stream") ⟨"pixeldiff", s.tb, vs⟩ "Analyzing pixel diffs" .count (pure .colors)

/-- Random levels. The seed -1 leaves the choice of a seed open. -/
def random (s : Setup) (vs : Method.Values) : Session Levels := do
  let seed := intOf vs "seed"
  let seed := if seed = -1 then 0 else seed
  s.console.note ("Seed: " ++ toString seed)
  let n ← s.length
  return ⟨.share, ((Twister.ofSeed seed).floats n.toNat).map .float⟩

def loudInAny (s : Setup) (threshold : Number) : Session Flags := do
  let streams := List.range s.src.audios.length
  let found ← streams.mapM fun (k : Nat) => do
    return (← s.loudness k).atLeast threshold
  match found with
  | [] =>
    if s.strict then s.console.fail "Input has no audio streams."
    else return List.replicate (← s.length).toNat false
  | xs :: xss => return xss.foldl (Flags.zipWith (· || ·)) xs

def audioFlags (s : Setup) (attrs : String) : Session Flags := do
  let vs ← s.console.check (audioSchema.read .none false attrs)
  match vs.lookup "stream" with
  | some (.number (.int n)) => return (← s.loudness n).atLeast (thresholdOf vs)
  | _ => s.loudInAny (thresholdOf vs)

def flags (s : Setup) (text : String) : Session Flags := do
  let (method, attrs) ← match Setting.parts ':' text with
    | [m] => pure (m, "")
    | [m, attrs] =>
      if m ∈ ["audio", "motion", "pixeldiff", "random", "none", "all"] then pure (m, attrs)
      else s.console.fail ("'" ++ m ++ "' not allowed to have attributes")
    | _ => throw .badValue
  match method with
  | "none" => return List.replicate (← s.length).toNat true
  | "all" => return List.replicate (← s.length).toNat false
  | "random" => do
    let vs ← s.console.check (randomSchema.read .none false attrs)
    return (← s.random vs).atLeast (thresholdOf vs)
  | "audio" => s.audioFlags attrs
  | "motion" => do
    let vs ← s.console.check (motionSchema.read (extentOf s.src) false attrs)
    return (← s.motion vs).atLeast (thresholdOf vs)
  | "pixeldiff" => do
    let vs ← s.console.check (pixelSchema.read .none false attrs)
    return (← s.pixels vs).atLeast (thresholdOf vs)
  | _ => throw (.refused .unknownObject)

end Setup

end Jumpcut
