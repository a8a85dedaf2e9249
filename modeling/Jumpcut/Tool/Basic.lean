import Jumpcut.CommandLine.Ask
import Jumpcut.Edit.Fetch
import Jumpcut.Json.Literal
import Jumpcut.Media.Source

namespace Jumpcut.Tool

open CommandLine

def transcoder (vs : Values) : Session Transcoder :=
  Transcoder.locate (vs.text? "ffmpeg_location") false

def sourcesFrom (t : Transcoder) (c : Console) : (k : Nat) → List String → Session (List Source)
  | _, [] => return []
  | k, path :: paths => do
    let src ← Source.load path (toString k) t c
    return src :: (← sourcesFrom t c (k + 1) paths)

def sources (vs : Values) (t : Transcoder) (c : Console) : Session (List Source) :=
  sourcesFrom t c 0 (vs.texts "input")

end Jumpcut.Tool
