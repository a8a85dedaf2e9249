import Jumpcut.Subtitle
import Jumpcut.Timeline.Basic

namespace Jumpcut

namespace Timeline

def settle {α : Type} : α × Option Fault → Except Fault α
  | (a, none) => .ok a
  | (_, some e) => .error e

def readSubtitles (t : Timeline) (tr : Transcoder) (temp : String) (k : Nat) (s : SubtitleStream) :
    Session Subtitles := do
  let file := Path.join temp (toString k ++ "s." ++ s.ext)
  match SubtitleFormat.named? s.codec with
  | some f => Session.ofExcept (settle (Subtitles.parse f t.tb (← Session.readText file)))
  | none =>
    let converted := Path.join temp (toString k ++ "s_convert.vtt")
    tr.run ["-i", file, converted]
    Session.ofExcept (settle (Subtitles.parse .webvtt t.tb (← Session.readText converted)))

def renderSubtitles (t : Timeline) (tr : Transcoder) (temp : String) : Session (List String) := do
  match t.chunks with
  | none => return []
  | some chunks =>
    let src ← Session.ofExcept (t.source "0")
    src.subtitles.zipIdx.mapM fun (s, k) => do
      let subtitles ← readSubtitles t tr temp k s
      let edited ← Session.ofExcept (settle (subtitles.edit chunks))
      let out := Path.join temp ("new" ++ toString k ++ "s." ++ s.ext)
      Session.writeText out (← Session.ofExcept edited.text)
      return out

end Timeline

end Jumpcut
