import Jumpcut.Media.Source

namespace Jumpcut

structure Extractor where
  transcoder : Transcoder
  rate : Int
  temp : String
  console : Console

namespace Extractor

def audio (x : Extractor) (path label : String) (stream : Int) : Session String := do
  let out := Path.join x.temp (label ++ "-" ++ toString stream ++ ".wav")
  if !(← Session.isFile out) then
    x.console.overwrite "Extracting audio"
    x.transcoder.run ["-i", path, "-map", "0:a:" ++ toString stream, "-ac", "2", "-ar",
      toString x.rate, "-rf64", "always", out]
  return out

end Extractor

end Jumpcut
