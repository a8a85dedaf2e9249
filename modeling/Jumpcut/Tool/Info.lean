import Jumpcut.Exchange.Json
import Jumpcut.Timecode
import Jumpcut.Tool.Basic

namespace Jumpcut.Tool

open CommandLine

def textOrNull : Option String → Json
  | some s => .str s
  | none => .null

namespace Info

def video (v : VideoStream) : Json :=
  let (across, down) := aspectRatio v.width v.height
  .obj [("codec", .str v.codec), ("fps", .str (Number.frac v.fps).display),
    ("resolution", .arr [.int v.width, .int v.height]),
    ("aspect_ratio", .arr [.int across, .int down]),
    ("pixel_aspect_ratio", textOrNull v.aspect), ("duration", textOrNull v.duration),
    ("pix_fmt", .str v.pixelFormat), ("color_range", textOrNull v.colorRange),
    ("color_space", textOrNull v.colorSpace), ("color_primaries", textOrNull v.colorPrimaries),
    ("color_transfer", textOrNull v.colorTransfer),
    ("timebase", .str (Number.frac v.timeBase).display), ("bitrate", v.bitrate), ("lang", v.lang)]

def audio (a : AudioStream) : Json :=
  .obj [("codec", .str a.codec), ("samplerate", .int a.rate), ("duration", textOrNull a.duration),
    ("bitrate", a.bitrate), ("lang", a.lang)]

def subtitle (s : SubtitleStream) : Json := .obj [("codec", .str s.codec), ("lang", s.lang)]

def media (s : Source) (frames : Json) : Json :=
  .obj [("type", .str "media"), ("video", .arr (s.videos.map video)),
    ("audio", .arr (s.audios.map audio)), ("subtitle", .arr (s.subtitles.map subtitle)),
    ("container", .obj [("duration", s.duration), ("bitrate", s.bitrate), ("fps_mode", frames)])]

def timeline (t : Timeline) : Except Fault Json := do
  match t.a with
  | [] => throw .outOfRange
  | layer :: _ =>
    let times ← layer.mapM AudioClip.time
    return .obj [("type", .str "timeline"),
      ("version", .str (if t.chunks.isNone then "v2" else "v1")), ("clips", .int times.length)]

def fromMark (mark text : String) : String :=
  let rec go : List Char → Option (List Char)
    | [] => none
    | c :: cs => if mark.toList.isPrefixOf (c :: cs) then some (c :: cs) else go cs
  match go text.toList with
  | some cs => Text.strip (String.ofList cs)
  | none => text

def frameReport (t : Transcoder) (path : String) : Session Json := do
  let printed ← t.pipe ["-i", path, "-hide_banner", "-vf", "vfrdet", "-an", "-f", "null", "-"]
  return .str (fromMark "VFR:" (Text.strip printed))

def file (frames : Bool) (t : Transcoder) (c : Console) (path : String) : Session Json := do
  if !(← Session.isFile path) then c.noFile path
  match Path.ext path with
  | ".json" => Session.ofExcept (timeline (← Timeline.readJson path t c))
  | ".xml" | ".fcpxml" | ".mlt" => return .obj [("type", .str "timeline")]
  | _ =>
    let src ← Source.load path "0" t c
    if src.videos.isEmpty && src.audios.isEmpty && src.subtitles.isEmpty then
      return .obj [("type", .str "unknown")]
    else return media src (← if frames then frameReport t path else pure .null)

def spaced (key : String) : String := key.map fun c => if c = '_' then ' ' else c

def valueText (key : String) : Json → String
  | .arr vs => (if key = "resolution" then "x" else ":").intercalate (vs.map Json.display)
  | v => v.display

def memberLines (line : String → Json → String) : Json → String
  | .obj ms => String.join ((ms.filter (!·.2.isNull)).map fun m => line m.1 m.2)
  | _ => ""

def trackLines (track : Json × Nat) : String :=
  "   - track " ++ toString track.2 ++ ":\n" ++
    memberLines (fun k v => "     - " ++ spaced k ++ ": " ++ valueText (spaced k) v ++ "\n") track.1

def partText (label : String) : Json → String
  | .arr [] => ""
  | .arr tracks => " - " ++ label ++ ":\n" ++ String.join (tracks.zipIdx.map trackLines)
  | .obj ms =>
    " - container:\n" ++ memberLines (fun k v => "   - " ++ k ++ ": " ++ v.display ++ "\n") (.obj ms)
  | .str "media" => ""
  | v => " - " ++ label ++ ": " ++ v.display ++ "\n"

def fileText (path : String) : Json → String
  | .obj ms => path ++ ":\n" ++ String.join (ms.map fun m => partText m.1 m.2) ++ "\n"
  | _ => ""

end Info

def info (vs : Values) : Session Unit := do
  let t ← transcoder vs
  let json := vs.flag "json"
  let c : Console := { Console.plain with quiet := !json }
  let facts ← (vs.texts "input").foldlM (fun ms path => do
    return Json.insert ms path (← Info.file (vs.flag "include_vfr") t c path)) []
  if json then Session.write ((Json.obj facts).pretty 4 0 ++ "\n")
  else Session.write (String.join (facts.map fun m => Info.fileText m.1 m.2))

def descriptionText : Json → String
  | .null => "\nNo description.\n\n"
  | j => "\n" ++ j.display ++ "\n\n"

def describe (vs : Values) : Session Unit :=
  (vs.texts "input").forM fun path => do
    let src ← Source.load path "0" (← transcoder vs) .plain
    Session.write (descriptionText src.description)

end Jumpcut.Tool
