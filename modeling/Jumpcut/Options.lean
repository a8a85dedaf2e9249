import Jumpcut.Setting.Reader

namespace Jumpcut

structure Options where
  (add source : List String := [])
  downloader : String := "yt-dlp"
  (downloadFormat outputFormat downloadExtras : Option String := none)
  (videoCodec audioCodec : String := "auto")
  videoBitrate : String := "10m"
  (audioBitrate videoQuality : String := "unset")
  scale : Number := .float 1.0
  extras : Option String := none
  noSeek : Bool := false
  (cutOut addIn markLoud markSilent : List (List String) := [])
  speedRanges : List (Number × String × String) := []
  frameRate : Option Rat := none
  sampleRate : Option Int := none
  resolution : Option (Int × Int) := none
  background : String := "#000"
  edit : String := "audio"
  keepTracks : Bool := false
  (exportAs player : Option String := none)
  noOpen : Bool := false
  (tempDir transcoder : Option String := none)
  ownTranscoder : Bool := false
  progress : String := "modern"
  (version debug showTranscoder quiet preview : Bool := false)
  margin : Length × Length := (.seconds "0.2", .seconds "0.2")
  silentSpeed : Number := .float 99999.0
  videoSpeed : Number := .float 1.0
  minClip : Length := .ticks 3
  minCut : Length := .ticks 6
  outputFile : Option String := none
  help : Bool := false
  inputs : List String := []

def flagUnlessUnset (flag : String) (value : Option String) : List String :=
  match value with
  | none | some "unset" => []
  | some v => [flag, v]

def Options.videoFlags (o : Options) : List String :=
  flagUnlessUnset "-b:v" (some o.videoBitrate) ++ ["-c:v", o.videoCodec] ++
    flagUnlessUnset "-qscale:v" (some o.videoQuality) ++ ["-movflags", "faststart"]

end Jumpcut
