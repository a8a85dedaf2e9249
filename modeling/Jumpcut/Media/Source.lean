import Jumpcut.Json.Access
import Jumpcut.Json.Reader
import Jumpcut.Media.Transcoder

namespace Jumpcut

structure VideoStream where
  (width height : Int)
  codec : String
  fps : Rat
  (duration aspect : Option String)
  timeBase : Rat
  pixelFormat : String
  (colorRange colorSpace colorPrimaries colorTransfer : Option String)
  (bitrate lang : Json)

structure AudioStream where
  codec : String
  rate : Int
  duration : Option String
  (bitrate lang : Json)

structure SubtitleStream where
  (codec ext : String)
  lang : Json

structure Source where
  (path label : String)
  (bitrate duration description : Json)
  videos : List VideoStream
  audios : List AudioStream
  subtitles : List SubtitleStream

namespace Source

def fullPath (s : Source) : String := absolutePath s.path
def fileName (s : Source) : String := Path.base s.path
def dirName (s : Source) : String := Path.dir s.fullPath
def name (s : Source) : String := Path.stem s.path
def ext (s : Source) : String := Path.ext s.path

def resolution (s : Source) : Int × Int :=
  match s.videos with
  | v :: _ => (v.width, v.height)
  | [] => (1920, 1080)

def fps (s : Source) : Rat :=
  match s.videos with
  | v :: _ => v.fps
  | [] => 30

def sampleRate (s : Source) : Int :=
  match s.audios with
  | a :: _ => a.rate
  | [] => 48000

end Source

namespace Probe

def imageCodecs : List String := ["png", "mjpeg", "webp"]

def subtitleExt : String → String
  | "mov_text" => "srt"
  | "ass" => "ass"
  | "webvtt" => "vtt"
  | _ => "vtt"

def text? (name : String) (stream : Json) : Except Fault (Option String) := do
  if ← stream.holds name then
    match ← stream.member name with
    | .str s => return some s
    | _ => .error (.complaint ("'" ++ name ++ "' must be a string"))
  else return none

def text (name : String) (stream : Json) : Except Fault String := do
  match ← text? name stream with
  | some s => return s
  | none => .error (.complaint ("'" ++ name ++ "' must be in ffprobe json"))

def value (name : String) (dflt : Json) (j : Json) : Except Fault Json := do
  if ← j.holds name then j.member name else return dflt

def tag (name : String) (j : Json) : Except Fault Json := do
  if ← j.holds "tags" then value name .null (← j.member "tags") else return .null

/-- A frame rate. Images have 25 frames per second unless they have more, and nothing runs at
zero. -/
def frameRate (codec : String) (s : String) : Except Fault Rat := do
  let fps : Rat ← match Decimal.fraction? s with
    | .ok q => pure q
    | .error .zeroDenominator => pure 0
    | .error _ => .error (.complaint ("Could not convert fps '" ++ s ++ "' to Fraction."))
  if fps < 1 then
    if codec ∈ imageCodecs then return 25
    else if fps = 0 then return 30
    else return fps
  else return fps

def timeBase (codec : String) (s : String) : Except Fault Rat :=
  match Decimal.fraction? s with
  | .ok q => .ok q
  | .error _ =>
    if codec ∈ imageCodecs then .ok 0
    else .error (.complaint ("Could not convert time_base '" ++ s ++ "' to Fraction."))

def size (name : String) (stream : Json) : Except Fault Int := do
  match ← stream.member name with
  | .int n => return n
  | _ => .error .wrongKind

def video (codec : String) (bitrate lang : Json) (j : Json) : Except Fault VideoStream := do
  let pixelFormat ← text "pix_fmt" j
  let duration ← text? "duration" j
  let colorRange ← text? "color_range" j
  let colorSpace ← text? "color_space" j
  let colorPrimaries ← text? "color_primaries" j
  let colorTransfer ← text? "color_transfer" j
  let aspect ← text? "sample_aspect_ratio" j
  let fpsText ← text "r_frame_rate" j
  let timeBaseText ← text "time_base" j
  let fps ← frameRate codec fpsText
  let timeBase ← timeBase codec timeBaseText
  let width ← size "width" j
  let height ← size "height" j
  return ⟨width, height, codec, fps, duration, aspect, timeBase, pixelFormat, colorRange,
    colorSpace, colorPrimaries, colorTransfer, bitrate, lang⟩

def audio (codec : String) (bitrate lang : Json) (j : Json) : Except Fault AudioStream := do
  let rate ← (← j.member "sample_rate").toInt
  return ⟨codec, rate, ← text? "duration" j, bitrate, lang⟩

def addStream (s : Source) (j : Json) : Except Fault Source := do
  let lang ← tag "language" j
  let bitrate ← value "bit_rate" .null j
  match ← text "codec_type" j with
  | "video" => do
    let v ← video (← text "codec_name" j) bitrate lang j
    return { s with videos := s.videos ++ [v] }
  | "audio" => do
    let a ← audio (← text "codec_name" j) bitrate lang j
    return { s with audios := s.audios ++ [a] }
  | "subtitle" => do
    let codec ← text "codec_name" j
    return { s with subtitles := s.subtitles ++ [⟨codec, subtitleExt codec, lang⟩] }
  | _ => return s

def report (path printed : String) : Except Fault Json :=
  let refuse (m : String) : Except Fault Json :=
    .error (.complaint (path ++ ": Could not read ffprobe JSON: " ++ m))
  match Json.parse printed with
  | .error d => refuse d.message
  | .ok j =>
    match j.holds "streams", j.holds "format" with
    | .ok true, .ok true => .ok j
    | .ok false, _ => refuse (Refusal.message .streamsKey)
    | _, .ok false => refuse (Refusal.message .formatKey)
    | _, _ => refuse ("argument of type '" ++ j.kindName ++ "' is not iterable")

def read (path label printed : String) : Except Fault Source := do
  let j ← report path printed
  let format ← j.member "format"
  let bitrate ← value "bit_rate" .null format
  let description ← tag "description" format
  let duration ← value "duration" (.str "") format
  let streams ← (← j.member "streams").elements
  streams.foldlM addStream ⟨path, label, bitrate, duration, description, [], [], []⟩

end Probe

def Source.load (path label : String) (t : Transcoder) (c : Console) : Session Source := do
  if !(← Session.exists_ path) then c.fail ("Could not access: " ++ path)
  let probe := t.probePath
  let printed ← try Session.outputOf [probe, "-v", "-8", "-print_format", "json",
      "-show_streams", "-show_format", path] catch
    | .noFile => c.noFile probe
    | e => throw e
  c.check (Probe.read path label printed)

end Jumpcut
