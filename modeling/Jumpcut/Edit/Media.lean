import Jumpcut.Edit.Sequence
import Jumpcut.Media.Codec
import Jumpcut.Render.Mux
import Jumpcut.Render.Sound
import Jumpcut.Render.Subtitles
import Jumpcut.Render.Video

namespace Jumpcut

structure MediaWork where
  src : Source
  container : Container
  options : Options
  extractor : Extractor
  bar : Bar

namespace MediaWork

def transcoder (m : MediaWork) : Transcoder := m.extractor.transcoder
def temp (m : MediaWork) : String := m.extractor.temp
def console (m : MediaWork) : Console := m.extractor.console

def stills (m : MediaWork) : Session (List VisualTrack) := do
  let pick (p : VideoStream × Nat) : Bool :=
    m.container.allowImage && Probe.imageCodecs.contains p.1.codec
  ((m.src.videos.zipIdx 1).filter pick).mapM fun (v, k) => do
    let path := Path.join m.temp (toString k ++ "." ++ v.codec)
    m.transcoder.run ["-i", m.src.path, "-map", "0:v", "-map", "-0:V", "-c", "copy", path]
    return ⟨false, path⟩

def visual (m : MediaWork) (t : Timeline) : Session (List VisualTrack × Bool) := do
  if !m.container.allowVideo then return ([], false)
  let (video, later) ←
    if t.v.isEmpty then pure ([], false)
    else do
      let (path, later) ← t.renderVideo m.transcoder m.options m.bar m.temp m.console
      pure ([⟨true, path⟩], later)
  return (video ++ (← m.stills), later)

def make (m : MediaWork) (t : Timeline) (out : String) : Session Unit := do
  let subs ← if m.container.allowSubtitle then t.renderSubtitles m.transcoder m.temp else pure []
  let audio ← if m.container.allowAudio then t.renderSound m.extractor m.bar else pure []
  let (visual, later) ← m.visual t
  m.console.overwrite "Writing output file"
  let plan : MuxPlan := ⟨m.src, visual, audio, subs, later, m.container, out, t.tb, m.options⟩
  plan.run m.transcoder m.temp m.console

def makeSequence (m : MediaWork) (t : Timeline) (out : String) :
    (k : Nat) → List (List Chunk) → Session Unit
  | _, [] => return
  | k, cs :: rest => do
    let part ← Session.ofExcept (t.ofSequence cs)
    m.make part (Path.appendStem out ("-" ++ toString k))
    m.makeSequence t out (k + 1) rest

end MediaWork

end Jumpcut
