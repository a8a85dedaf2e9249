import Jumpcut.Fault
import Jumpcut.Media.Container

namespace Jumpcut

inductive StreamKind : Type
  | video | audio
  deriving DecidableEq, Repr

structure CodecRules where
  preferred : Option (List String)
  strict : Bool
  excluded : List String
  deriving DecidableEq, Repr

def Container.rules (c : Container) : StreamKind → CodecRules
  | .video => ⟨c.videoCodecs, c.videoStrict, c.noVideo⟩
  | .audio => ⟨c.audioCodecs, c.audioStrict, c.noAudio⟩

namespace StreamKind

def defaultCodec : StreamKind → String
  | .video => "h264"
  | .audio => "aac"

def nothingToCopy : StreamKind → String
  | .video => "Input file does not have a video stream to copy codec from."
  | .audio => "Input file does not have an audio stream to copy codec from."

def isUnset : StreamKind → String → Bool
  | .video, _ => false
  | .audio, codec => codec == "unset"

end StreamKind

namespace CodecRules

def adapt (r : CodecRules) (codec : String) : Except Fault String :=
  match r.preferred with
  | none => .ok codec
  | some cs =>
    if (r.strict && !cs.contains codec) || r.excluded.contains codec then
      match cs with
      | c :: _ => .ok c
      | [] => .error .outOfRange
    else .ok codec

def demand (r : CodecRules) (ext codec : String) : Except Fault String :=
  let refuse : Except Fault String :=
    .error (.complaint ("'" ++ codec ++ "' codec is not supported in '" ++ ext ++ "' container."))
  match r.strict, r.preferred with
  | true, none => .error .broken
  | true, some cs =>
    if !cs.contains codec || r.excluded.contains codec then refuse else .ok codec
  | false, _ => if r.excluded.contains codec then refuse else .ok codec

end CodecRules

/-- The codec to write: chosen, copied from a source or named. `streams` holds the codecs of the
source's streams, if there is a source. -/
def codecFor (kind : StreamKind) (wish : String) (streams : Option (List String)) (ext : String)
    (c : Container) : Except Fault String :=
  let rules := c.rules kind
  match wish, streams with
  | "auto", some (codec :: _) => rules.adapt codec
  | "auto", _ => rules.adapt kind.defaultCodec
  | "copy", none => .error (.complaint "No input to copy its codec from.")
  | "copy", some [] => .error (.complaint kind.nothingToCopy)
  | "copy", some (codec :: _) => if kind.isUnset codec then .ok codec else rules.demand ext codec
  | codec, _ => if kind.isUnset codec then .ok codec else rules.demand ext codec

end Jumpcut
