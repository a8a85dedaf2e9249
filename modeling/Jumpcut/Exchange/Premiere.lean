import Jumpcut.Exchange.FrameRate
import Jumpcut.Media.Extractor
import Jumpcut.Timeline.Basic
import Jumpcut.Url
import Jumpcut.Xml.Basic

/-!
Timelines for Premiere Pro. A clip is linked to the clips of the same chunk in the other tracks,
and a file is described where it occurs first.
-/
namespace Jumpcut.Premiere

open Xml

structure Place where
  (start stop source sourceEnd : Int)

def places (total : Number) : List Chunk → Except Fault (List Place)
  | [] => .ok []
  | c :: cs => do
    let d ← Number.div (.int c.length) c.speed
    let start ← total.trunc
    let stop ← d.trunc
    let source ← (← Number.div (.int c.start) c.speed).trunc
    let sourceEnd ← (← Number.div (.int c.stop) c.speed).trunc
    return ⟨start, start + stop, source, sourceEnd⟩ :: (← places (← total.add d) cs)

def rateNode (r : FrameRate) : Xml :=
  node "rate" [leaf "timebase" (toString r.base), leaf "ntsc" r.flagText]

def parameter (id : String) (bounds : List Xml) (value : String) : Xml :=
  nodeWith "parameter" [("authoringApp", "PremierePro")]
    ([leaf "parameterid" id, leaf "name" id] ++ bounds ++ [leaf "value" value])

def speedup (percent : String) : Xml :=
  node "filter" [node "effect" [leaf "name" "Time Remap", leaf "effectid" "timeremap",
    parameter "variablespeed" [leaf "valuemin" "0", leaf "valuemax" "1"] "0",
    parameter "speed" [leaf "valuemin" "-100000", leaf "valuemax" "100000"] percent,
    parameter "frameblending" [] "FALSE"]]

def speedNodes (c : Chunk) : Except Fault (List Xml) := do
  if c.speed.eqv 1 then return [] else return [speedup (← c.speed.mul 100).display]

structure Facts where
  src : Source
  rate : FrameRate
  sampleRate : Int
  resolution : Int × Int
  duration : Int
  count : Nat
  urls : List String

namespace Facts

def tracks (f : Facts) : Nat := f.src.audios.length

def isSound (f : Facts) : Bool := f.src.videos.isEmpty && f.tracks == 1

def soundFormat (f : Facts) : Xml :=
  node "samplecharacteristics" [leaf "depth" "16", leaf "samplerate" (toString f.sampleRate)]

def clipNodes (f : Facts) (master : String) (p : Place) : List Xml :=
  [leaf "masterclipid" ("masterclip-" ++ master), leaf "name" f.src.fileName,
    leaf "start" (toString p.start), leaf "end" (toString p.stop), leaf "in" (toString p.source),
    leaf "out" (toString p.sourceEnd)]

def fileNodes (f : Facts) (track : Nat) : List Xml :=
  [leaf "name" f.src.fileName, leaf "pathurl" (f.urls.getD track ""), rateNode f.rate]

def sizeNodes (f : Facts) : List Xml :=
  [leaf "width" (toString f.resolution.1), leaf "height" (toString f.resolution.2)]

def videoFile (f : Facts) (first : Bool) : Xml :=
  nodeWith "file" [("id", "file-1")] (if first then f.fileNodes 0 ++
    [leaf "duration" (toString f.duration),
      node "media" [
        node "video" [node "samplecharacteristics" (rateNode f.rate :: f.sizeNodes ++
          [leaf "anamorphic" "FALSE", leaf "pixelaspectratio" "square"])],
        node "audio" [f.soundFormat, leaf "channelcount" "10"]],
      leaf "duration" (toString f.duration)]
  else [])

def link (f : Facts) (j i : Nat) : Xml :=
  node "link" ([leaf "linkclipref" ("clipitem-" ++ toString (i * f.count + j + 1)),
    leaf "mediatype" (if i = 0 then "video" else "audio"), leaf "trackindex" (toString (max i 1)),
    leaf "clipindex" (toString (j + 1))] ++ (if i > 0 then [leaf "groupindex" "1"] else []))

def videoClip (f : Facts) (j : Nat) (c : Chunk) (p : Place) : Except Fault Xml := do
  return nodeWith "clipitem" [("id", "clipitem-" ++ toString (j + 1))]
    (f.clipNodes "2" p ++ [f.videoFile (j == 0)] ++ (← speedNodes c) ++
      (List.range (f.tracks + 1)).map (f.link j))

def soundFile (f : Facts) (track : Nat) (first : Bool) : Xml :=
  nodeWith "file" [("id", "file-" ++ toString (track + 1))]
    (if first && (f.isSound || track > 0) then f.fileNodes track ++
      [node "media" [node "audio" [f.soundFormat, leaf "channelcount" "2"]]]
    else [])

def soundNumber (f : Facts) (track j : Nat) : Nat :=
  if f.isSound then j + 1 else f.count + 1 + j + track * f.count

def soundClip (f : Facts) (track j : Nat) (c : Chunk) (p : Place) : Except Fault Xml := do
  return nodeWith "clipitem" [("id", "clipitem-" ++ toString (f.soundNumber track j)),
      ("premiereChannelType", "stereo")]
    (f.clipNodes (if f.isSound then "1" else "2") p ++
      [f.soundFile track (j == 0),
        node "sourcetrack" [leaf "mediatype" "audio", leaf "trackindex" "1"],
        node "labels" [leaf "label2" "Iris"]] ++
      (← speedNodes c) ++ (if f.isSound then [] else [leaf "outputchannelindex" "1"]))

def clips (make : Nat → Chunk → Place → Except Fault Xml) (total : Number) (cs : List Chunk) :
    Except Fault (List Xml) := do
  ((cs.zip (← places total cs)).zipIdx).mapM fun ((c, p), j) => make j c p

def videoTracks (f : Facts) (cs : List Chunk) : Except Fault (List Xml) := do
  if f.src.videos.isEmpty then return []
  else return [node "track" (← clips f.videoClip (.float 0.0) cs)]

def soundTrack (f : Facts) (cs : List Chunk) (track : Nat) : Except Fault Xml := do
  return nodeWith "track" [("currentExplodedTrackIndex", "0"), ("premiereTrackType", "Stereo")]
    (← clips (f.soundClip track) (.int 0) cs)

def isWritable (f : Facts) : Bool :=
  [f.duration, f.rate.base, f.resolution.1, f.resolution.2, f.sampleRate].all Number.isWritable

def document (f : Facts) (cs : List Chunk) : Except Fault Xml := do
  if !f.isWritable then .error .badValue
  let format := node "format" [node "samplecharacteristics" ([rateNode f.rate,
    leaf "fielddominance" "none", leaf "colordepth" "24"] ++ f.sizeNodes ++
    [leaf "pixelaspectratio" "square"])]
  let video := node "video" (format :: (← f.videoTracks cs))
  let audio := node "audio" ([leaf "numOutputChannels" "2", node "format" [f.soundFormat]] ++
    (← (List.range f.tracks).mapM (f.soundTrack cs)))
  return nodeWith "xmeml" [("version", "4")] [node "sequence" [
    leaf "name" ("Auto-Editor " ++ (if f.isSound then "Audio" else "Video") ++ " Group"),
    leaf "duration" (toString f.duration), rateNode f.rate, node "media" [video, audio]]]

end Facts

def freshDir (path : String) : Session Unit := do
  try Session.makeDir path catch _ =>
    Session.removeDir path
    Session.makeDir path

def trackUrls (src : Source) (x : Extractor) : Session (List String) := do
  let first := Url.ofPath src.fullPath
  if src.audios.length ≤ 1 then return [first]
  else
    let name := src.fileName.toList
    let stem := match name.reverse.dropWhile (· ≠ '.') with
      | [] => name.dropLast
      | _ :: rest => rest.reverse
    let dir := Path.join src.dirName (String.ofList stem ++ "_tracks")
    freshDir dir
    let rest ← (List.range' 1 (src.audios.length - 1)).mapM fun (i : Nat) => do
      let path := Path.join dir (toString i ++ ".wav")
      Session.moveFile (← x.audio src.path "0" i) path
      return Url.ofPath (absolutePath path)
    return first :: rest

end Premiere

def Timeline.writePremiere (t : Timeline) (x : Extractor) (path : String) : Session Unit := do
  match t.chunks with
  | none => throw (.refused .complexTimeline)
  | some cs =>
    match cs.getLast? with
    | none => throw .outOfRange
    | some last =>
      let src ← Session.ofExcept (t.source "0")
      let kept := cs.filter (!·.isCut)
      let urls ← Premiere.trackUrls src x
      let facts : Premiere.Facts :=
        ⟨src, .ofTimeBase t.tb, t.rate, t.resolution, last.stop, kept.length, urls⟩
      Session.writeText path (← Session.ofExcept (facts.document kept)).document

end Jumpcut
