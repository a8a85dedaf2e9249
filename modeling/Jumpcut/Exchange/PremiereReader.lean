import Jumpcut.Exchange.FrameRate
import Jumpcut.Timeline.Basic
import Jumpcut.Url
import Jumpcut.Xml.Form
import Jumpcut.Xml.Outline
import Jumpcut.Xml.Reader

namespace Jumpcut.Premiere

open Xml (Form Fields Leaf)

def sequenceForm : List (String × Form) :=
  [("name", .leaf .text), ("duration", .leaf .int),
    ("rate", .group false [("timebase", .leaf .fraction), ("ntsc", .leaf .truth)]),
    ("media", .keep)]

def mediaForm : List (String × Form) := [("video", .keep), ("audio", .keep)]

def tracksForm (characteristics : List String) : List (String × Form) :=
  [("format", .group false [("samplecharacteristics",
      .group false (characteristics.map fun n => (n, .leaf .int)))]),
    ("track", .group true [("clipitem", .group true [("start", .leaf .int), ("end", .leaf .int),
      ("in", .leaf .int), ("out", .leaf .int), ("file", .keep)])])]

abbrev Sources := List (String × Source)

structure Loader where
  transcoder : Transcoder
  console : Console
  explain : Bool

namespace Loader

def source (l : Loader) (sources : Sources) (item : Fields) : Session (Sources × String) := do
  let file ← Session.ofExcept (item.element "file")
  match file.attr? "id" with
  | none => throw .noKey
  | some id =>
    if sources.any (·.1 == id) then return (sources, id)
    else
      let fields ← l.console.check (Xml.read [("pathurl", .leaf .text)] file)
      if l.explain && !fields.any (·.1 == "pathurl") then
        Session.write (file.outline 3 0)
        l.console.fail ("'pathurl' child element not found in " ++ file.tag)
      else
        let url ← Session.ofExcept (fields.text "pathurl")
        let path ← Session.ofExcept (Url.filePath url)
        let src ← Source.load path (toString sources.length) l.transcoder l.console
        return (sources ++ [(id, src)], id)

def items {α : Type} (l : Loader) (make : (start dur : Int) → (src : String) → (offset : Int) → α)
    (t : Nat) : Sources × List (List α) → List Fields → Session (Sources × List (List α))
  | done, [] => pure done
  | (sources, layers), item :: rest => do
    let (sources, id) ← l.source sources item
    let start ← Session.ofExcept (item.int "start")
    let stop ← Session.ofExcept (item.int "end")
    let offset ← Session.ofExcept (item.int "in")
    if t < layers.length then
      items l make t
        (sources, layers.modify t (· ++ [make start (stop - start) id offset])) rest
    else throw .outOfRange

/-- Adds a layer for each track that has clips. A track behind an empty one has no place. -/
def tracks {α : Type} (l : Loader) (make : (start dur : Int) → (src : String) → (offset : Int) → α) :
    (t : Nat) → Sources × List (List α) → List Fields → Session (Sources × List (List α))
  | _, done, [] => pure done
  | t, (sources, layers), track :: rest => do
    let clips ← Session.ofExcept (track.list "clipitem")
    let layers := if clips.isEmpty then layers else layers ++ [[]]
    tracks l make (t + 1) (← l.items make t (sources, layers) clips) rest

end Loader

def load (path : String) (c : Console) : Session Xml := do
  if !(← Session.isFile path) then c.noFile path
  else
    match String.fromUTF8? (← Session.readBytes path) with
    | some s => Session.ofExcept (Xml.parse s)
    | none => throw .badXml

def checkTag (x : Xml) (tag : String) : Except Fault Unit :=
  if x.tag = tag then .ok ()
  else .error (.complaint ("Expected '" ++ tag ++ "' tag, got '" ++ x.tag ++ "'"))

def sequence (root : Xml) : Except Fault Fields := do
  checkTag root "xmeml"
  match root.children with
  | [] => .error .outOfRange
  | s :: _ => do
    checkTag s "sequence"
    Xml.read sequenceForm s

end Premiere

open Premiere in
def Timeline.readPremiere (path : String) (t : Transcoder) (c : Console) : Session Timeline := do
  let root ← load path c
  let seq ← c.check (sequence root)
  let tb ← Session.ofExcept do
    let rate ← seq.group "rate"
    return FrameRate.timeBase (← rate.fraction "timebase") (← rate.truth "ntsc")
  let av ← c.check do Xml.read mediaForm (← seq.element "media")
  let (sources, v, res) ← match av.element? "video" with
    | none => pure ([], [], (1920, 1080))
    | some x => do
      let fs ← c.check (Xml.read (tracksForm ["width", "height"]) x)
      let res ← Session.ofExcept do
        let f ← (← fs.group "format").group "samplecharacteristics"
        return (← f.int "width", ← f.int "height")
      let make (start dur : Int) (src : String) (offset : Int) : VisualItem :=
        .clip ⟨start, dur, .text src, offset, 1, 0⟩
      let (sources, v) ← Loader.tracks ⟨t, c, true⟩ make 0 ([], [])
        (← Session.ofExcept (fs.list "track"))
      pure (sources, v, res)
  let (sources, a, rate) ← match av.element? "audio" with
    | none => pure (sources, [], 48000)
    | some x => do
      let fs ← c.check (Xml.read (tracksForm ["samplerate"]) x)
      let rate ← Session.ofExcept do
        (← (← fs.group "format").group "samplecharacteristics").int "samplerate"
      let make (start dur : Int) (src : String) (offset : Int) : AudioClip :=
        ⟨start, dur, .text src, offset, 1, .int 1, 0⟩
      let (sources, a) ← Loader.tracks ⟨t, c, false⟩ make 0 (sources, [])
        (← Session.ofExcept (fs.list "track"))
      pure (sources, a, rate)
  return ⟨sources, tb, rate, res, "#000", v, a, none⟩

def Timeline.showShotcut {α : Type} (path : String) (c : Console) : Session α := do
  let root ← Premiere.load path c
  Session.write (root.outline 10 0)
  throw (.exit .none)

end Jumpcut
