import Jumpcut.Timecode
import Jumpcut.Timeline.Basic
import Jumpcut.Xml.Basic

namespace Jumpcut.Shotcut

open Xml

def atLeastZero (x : Number) : Number := if x.lt 0 then .int 0 else x

def time (ticks : Number) (tb : Rat) : Except Fault String := do
  TimeFormat.standard.text (← ticks.div (.frac tb))

def property (name value : String) : Xml := .element "property" [("name", name)] (some value) []

def isNormal (c : Chunk) : Bool := c.speed.eqv 1

def definition (src : Source) (tb : Rat) (id : String) (c : Chunk) : Except Fault Xml := do
  let s := c.speed
  let stop ← Number.div (.int c.stop) s
  let out ← time stop tb
  let length ← time (← stop.add 1) tb
  let speed := s.display
  let attrs := [("id", id), ("out", out)]
  if isNormal c then
    return nodeWith "chain" attrs [property "length" length, property "resource" src.path,
      property "caption" src.fileName]
  else
    return nodeWith "producer" attrs [property "length" length,
      property "resource" (speed ++ ":" ++ src.path), property "warp_speed" speed,
      property "warp_pitch" "1", property "mlt_service" "timewarp",
      property "caption" (src.fileName ++ " (" ++ speed ++ "x)")]

/-- The tick at which the clip of a chunk begins. At normal speed it is the one before the chunk. -/
def firstTick (c : Chunk) : Except Fault Number := do
  if isNormal c then return .int (c.start - 1)
  else return atLeastZero (← Number.div (.int c.start) c.speed)

def lastTick (c : Chunk) : Except Fault Number := do
  return atLeastZero (← Number.div (.int (c.stop - 2)) c.speed)

def entry (tb : Rat) (id : String) (c : Chunk) : Except Fault Xml := do
  let start ← firstTick c
  let stop ← lastTick c
  return nodeWith "entry" [("producer", id), ("in", ← time start tb), ("out", ← time stop tb)] []

/-- Defines the clips of the kept chunks. `chains` counts all before them, `producers` those at
another speed. -/
def definitions (src : Source) (tb : Rat) (chains producers : Nat) :
    List Chunk → Except Fault (List Xml)
  | [] => .ok []
  | c :: cs =>
    if c.isCut then definitions src tb chains producers cs
    else if isNormal c then do
      let x ← definition src tb ("chain" ++ toString chains) c
      return x :: (← definitions src tb (chains + 1) producers cs)
    else do
      let x ← definition src tb ("producer" ++ toString producers) c
      return x :: (← definitions src tb (chains + 1) (producers + 1) cs)

def entries (tb : Rat) (count producers : Nat) : List Chunk → Except Fault (List Xml)
  | [] => .ok []
  | c :: cs =>
    if c.isCut then entries tb count producers cs
    else do
      let (id, next) := if isNormal c then ("chain" ++ toString count, producers)
        else ("producer" ++ toString producers, producers + 1)
      let x ← entry tb id c
      return x :: (← entries tb (count + 1) next cs)

def background (t : Timeline) (out : String) : Xml :=
  nodeWith "producer" [("id", "bg")] [property "length" out, property "eof" "pause",
    property "resource" t.background, property "mlt_service" "color",
    property "mlt_image_format" "rgba", property "aspect_ratio" "1"]

def frame (t : Timeline) (out : String) (clips played : List Xml) : Xml :=
  let (w, h) := t.resolution
  let (num, den) := aspectRatio w h
  let start := "00:00:00.000"
  let profile := nodeWith "profile" [("description", "automatic"), ("width", toString w),
    ("height", toString h), ("progressive", "1"), ("sample_aspect_num", "1"),
    ("sample_aspect_den", "1"), ("display_aspect_num", toString num),
    ("display_aspect_den", toString den), ("frame_rate_num", toString t.tb.num),
    ("frame_rate_den", toString t.tb.den), ("colorspace", "709")] []
  nodeWith "mlt" [("LC_NUMERIC", "C"), ("version", "7.9.0"),
      ("title", "Shotcut version 22.09.23"), ("producer", "main_bin")]
    ([profile, nodeWith "playlist" [("id", "main_bin")] [property "xml_retain" "1"],
      background t out, nodeWith "playlist" [("id", "background")]
        [.element "entry" [("producer", "bg"), ("in", start), ("out", out)] (some "1") []]] ++
      clips ++
      [nodeWith "playlist" [("id", "playlist0")]
        ([property "shotcut:video" "1", property "shotcut:name" "V1"] ++ played),
      nodeWith "tractor" [("id", "tractor0"), ("in", start), ("out", out)]
        [property "shotcut" "1", property "shotcut:projectAudioChannels" "2",
          nodeWith "track" [("producer", "background")] [],
          nodeWith "track" [("producer", "playlist0")] []]])

def document (t : Timeline) (src : Source) (cs : List Chunk) : Except Fault Xml := do
  let out ← time (← t.length) t.tb
  let clips ← definitions src t.tb 0 0 cs
  let played ← entries t.tb 0 0 cs
  return frame t out clips played

end Shotcut

def Timeline.writeShotcut (t : Timeline) (path : String) : Session Unit := do
  match t.chunks with
  | none => throw (.refused .complexTimeline)
  | some cs =>
    let doc ← Session.ofExcept do Shotcut.document t (← t.source "0") cs
    Session.writeText path doc.document

end Jumpcut
