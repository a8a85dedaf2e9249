import Jumpcut.Json.Literal
import Jumpcut.Media.Container
import Jumpcut.Media.Source
import Jumpcut.Options

namespace Jumpcut

structure VisualTrack where
  isVideo : Bool
  path : String
  deriving DecidableEq, Repr

structure MuxPlan where
  src : Source
  visual : List VisualTrack
  (audio subs : List String)
  applyQuality : Bool
  container : Container
  out : String
  tb : Rat
  options : Options

namespace MuxPlan

def shown (p : MuxPlan) : List VisualTrack :=
  p.visual.filter fun v => v.isVideo || p.container.allowImage

def merges (p : MuxPlan) : Bool :=
  1 < p.audio.length && !(p.options.keepTracks && p.container.maxAudios.isNone)

def mergedPath (temp : String) : String := Path.join temp "new_audio.wav"

def audioFiles (p : MuxPlan) (temp : String) : List String :=
  if p.merges then [mergedPath temp] else p.audio

def files (p : MuxPlan) (temp : String) : List String :=
  p.shown.map (·.path) ++ p.audioFiles temp ++ p.subs

def audioTracks (p : MuxPlan) : Nat := if p.merges then 1 else p.audio.length

def trackCount (p : MuxPlan) : Nat := p.shown.length + p.subs.length + p.audioTracks

def maps (p : MuxPlan) : List String :=
  (List.range p.trackCount).flatMap fun i => ["-map", toString (i + 1) ++ ":0"]

def mergeCommand (p : MuxPlan) (temp : String) : List String :=
  p.audio.flatMap (["-i", ·]) ++
    ["-filter_complex", "amix=inputs=" ++ toString p.audio.length ++ ":duration=longest", "-ac", "2",
      mergedPath temp]

def trackFlags (p : MuxPlan) (v : VisualTrack) (k : Nat) : Except Fault (List String) := do
  if v.isVideo then
    let quality := if p.applyQuality then p.options.videoFlags else ["-c:v:0", "copy"]
    let whole := (Number.float (← Number.nearestFloat p.tb)).isWhole
    return quality ++
      (if whole then ["-video_track_timescale", (Number.frac p.tb).display] else [])
  else if p.container.allowImage then
    let codec := String.ofList ((Path.ext v.path).toList.drop 1)
    return ["-c:v:" ++ toString k, codec, "-disposition:v:" ++ toString k, "attached_pic"]
  else return []

def languageFlags (kind : String) (tracks : Nat) (langs : List Json) : List String :=
  (langs.take (tracks + 1)).zipIdx.flatMap fun (lang, i) =>
    match lang with
    | .null => []
    | l => ["-metadata:s:" ++ kind ++ ":" ++ toString i, "language=" ++ l.display]

def sameContainer (p : MuxPlan) : Bool := p.src.ext == Path.ext p.out

def subtitleFlags (p : MuxPlan) : Except Fault (List String) :=
  if p.subs.isEmpty then .ok []
  else
    match p.src.subtitles with
    | [] => .error .outOfRange
    | s :: _ =>
      if p.sameContainer then .ok ["-c:s", s.codec]
      else
        match p.container.subtitleCodecs with
        | none => .ok []
        | some cs =>
          if cs.contains s.codec then .ok ["-c:s", s.codec]
          else
            match cs with
            | [] => .error .outOfRange
            | c :: _ => .ok ["-c:s", c]

def audioFlags (p : MuxPlan) : List String :=
  if p.audio.isEmpty then []
  else flagUnlessUnset "-c:a" (some p.options.audioCodec) ++
    flagUnlessUnset "-b:a" (some p.options.audioBitrate)

def colorFlags (p : MuxPlan) : Except Fault (List String) :=
  if p.sameContainer && !p.shown.isEmpty then
    match p.src.videos with
    | [] => .error .outOfRange
    | v :: _ => .ok (flagUnlessUnset "-color_range" v.colorRange ++
      flagUnlessUnset "-colorspace" v.colorSpace ++
      flagUnlessUnset "-color_primaries" v.colorPrimaries ++
      flagUnlessUnset "-color_trc" v.colorTransfer)
  else .ok []

def extraFlags (p : MuxPlan) : List String :=
  match p.options.extras with
  | some s => Setting.parts ' ' s
  | none => []

def command (p : MuxPlan) (temp : String) : Except Fault (List String) := do
  let tracks ← p.visual.zipIdx.mapM fun (v, k) => p.trackFlags v k
  return ["-hide_banner", "-y", "-i", p.src.path] ++ (p.files temp).flatMap (["-i", ·]) ++ p.maps ++
    ["-map_metadata", "0"] ++ tracks.flatten ++
    languageFlags "v" p.shown.length (p.src.videos.map (·.lang)) ++
    languageFlags "a" p.audioTracks (p.src.audios.map (·.lang)) ++
    languageFlags "s" p.subs.length (p.src.subtitles.map (·.lang)) ++
    (← p.subtitleFlags) ++ p.audioFlags ++ (← p.colorFlags) ++ p.extraFlags ++
    ["-strict", "-2", "-map", "0:t?", p.out]

def run (p : MuxPlan) (t : Transcoder) (temp : String) (c : Console) : Session Unit := do
  if p.merges then t.run (p.mergeCommand temp)
  t.runChecked c (← Session.ofExcept (p.command temp)) false (some p.out)

end MuxPlan

end Jumpcut
