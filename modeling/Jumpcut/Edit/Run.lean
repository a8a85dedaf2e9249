import Jumpcut.Edit.Media
import Jumpcut.Edit.Open
import Jumpcut.Exchange.FinalCut
import Jumpcut.Exchange.Json
import Jumpcut.Exchange.Premiere
import Jumpcut.Exchange.PremiereReader
import Jumpcut.Exchange.Shotcut
import Jumpcut.Export
import Jumpcut.Preview
import Jumpcut.Timeline.Build

namespace Jumpcut

namespace Edit

inductive Material : Type
  | inputs : Inputs → Material
  | timeline : Timeline → Material

structure Start where
  src : Source
  material : Material

def begin (paths : List String) (t : Transcoder) (c : Console) : Session Start := do
  match paths with
  | [] => throw .unassigned
  | path :: _ =>
    match Path.ext path with
    | ".xml" =>
      let tl ← Timeline.readPremiere path t c
      match tl.sources with
      | [] => throw .exhausted
      | (_, src) :: _ => return ⟨src, .timeline tl⟩
    | ".mlt" => Timeline.showShotcut path c
    | ".json" =>
      let tl ← Timeline.readJson path t c
      return ⟨← Session.ofExcept (tl.source "0"), .timeline tl⟩
    | _ =>
      let i ← Inputs.load paths t c
      match i.ordered with
      | [] => throw .unassigned
      | src :: _ => return ⟨src, .inputs i⟩

def clearOutput (out : String) (src : Source) (c : Console) : Session Unit := do
  c.overwrite "Starting"
  if ← Session.isDir out then c.fail "Output path already has an existing directory!"
  if (← Session.isFile out) && src.path != out then
    c.note ("Removing already existing file: " ++ out)
    Session.removeFile out

def sampleRate (o : Options) (s : Start) : Int :=
  o.sampleRate.getD (match s.material with
    | .timeline t => t.rate
    | .inputs _ => s.src.sampleRate)

def extractSubtitles (src : Source) (t : Transcoder) (temp : String) : Session Unit := do
  if src.subtitles.isEmpty then return
  let maps := src.subtitles.zipIdx.flatMap fun (_, k) => ["-map", "0:s:" ++ toString k]
  let outs := src.subtitles.zipIdx.map fun (s, k) => Path.join temp (toString k ++ "s." ++ s.ext)
  t.run (["-i", src.path, "-hide_banner"] ++ maps ++ outs)

def timelineOf (s : Start) (x : Extractor) (o : Options) (bar : Bar) : Session Timeline := do
  match s.material with
  | .timeline t => return t
  | .inputs i =>
    extractSubtitles s.src x.transcoder x.temp
    Timeline.build i x.transcoder x o x.rate bar x.temp x.console

def mediaWork (src : Source) (ext : String) (x : Extractor) (o : Options) (bar : Bar) :
    Session MediaWork := do
  let c := x.console
  let container := Container.ofExt ext
  match container.sampleRates with
  | some rates =>
    if !(o.sampleRate.any rates.contains) then
      c.fail ("'" ++ ext ++ "' container only supports samplerates: [" ++
        ", ".intercalate (rates.map toString) ++ "]")
  | none => pure ()
  let videoCodec ← c.check (codecFor .video o.videoCodec (some (src.videos.map (·.codec))) ext
    container)
  let audioCodec ← c.check (codecFor .audio o.audioCodec (some (src.audios.map (·.codec))) ext
    container)
  if o.keepTracks && container.maxAudios == some 1 then
    c.warn ("'" ++ ext ++ "' container doesn't support multiple audio tracks.")
  return ⟨src, container, { o with videoCodec, audioCodec }, x, bar⟩

def clockText (secs : Nat) : String :=
  toString (secs / 3600) ++ ":" ++ ClockTime.twoDigits (secs / 60 % 60 : Nat) ++ ":" ++
    ClockTime.twoDigits (secs % 60 : Nat)

def finish (begun : Float) (quiet : Bool) : Session Unit := do
  if quiet then return
  let secs := Decimal.roundTo 2 ((← Session.now) - begun)
  let whole ← Session.ofExcept (Number.float secs).round
  Session.write ("Finished. took " ++ Decimal.plain.float secs ++ " seconds (" ++
    clockText whole.toNat ++ ")\n")

def present (o : Options) (out : String) (c : Console) : Session Unit := do
  if o.noOpen then return
  match o.player with
  | none => Opener.command.openFile out c
  | some player => Opener.play player out

def makeMedia (e : Export) (tl : Timeline) (src : Source) (out : String) (x : Extractor)
    (o : Options) (bar : Bar) (begun : Float) : Session Unit := do
  let ext := String.ofList ((Path.ext out).toList.filter (· ≠ '.'))
  let work ← mediaWork src ext x o bar
  if e = .clipSequence then
    match tl.chunks with
    | none => x.console.fail "Timeline to complex to use clip-sequence export"
    | some cs => work.makeSequence tl out 0 (← Session.ofExcept (Chunk.sequence cs))
  else work.make tl out
  finish begun x.console.quiet
  present o out x.console

def export_ (e : Export) (tl : Timeline) (src : Source) (out : String) (x : Extractor)
    (o : Options) (bar : Bar) (begun : Float) : Session Unit := do
  let c := x.console
  match e with
  | .timeline api => tl.printJson api c
  | e =>
    if o.preview then tl.preview x x.temp c
    else
      match e with
      | .json api => tl.writeJson api out c
      | .premiere => tl.writePremiere x out
      | .finalCut => tl.writeFinalCut out
      | .shotcut => tl.writeShotcut out
      | e => makeMedia e tl src out x o bar begun

def unbroken {α : Type} (c : Console) (act : Session α) : Session α :=
  try act catch
    | .interrupted => c.fail "Keyboard Interrupt"
    | e => throw e

/-- Edits files. A timeline that is printed is printed alone, so nothing else is said then and
afterwards. -/
def run (paths : List String) (t : Transcoder) (o : Options) (temp : String) (c : Console) :
    Session Console := do
  let (begun, bar, start, out, e) ← unbroken c do
    let begun ← Session.now
    let bar ← Bar.ofKind o.progress
    let start ← begin paths t c
    let (out, e) ← c.check (Export.output o.outputFile o.exportAs (some start.src))
    return (begun, bar, start, out, e)
  let c := match e with
    | .timeline _ => { c with quiet := true }
    | _ => c
  unbroken c do
    if !o.preview then clearOutput out start.src c
    let x : Extractor := ⟨t, sampleRate o start, temp, c⟩
    let tl ← timelineOf start x o bar
    export_ e tl start.src out x o bar begun
  return c

end Edit

end Jumpcut
