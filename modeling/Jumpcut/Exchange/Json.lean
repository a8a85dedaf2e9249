import Jumpcut.Exchange.ChunkList
import Jumpcut.Exchange.Version
import Jumpcut.Json.Reader
import Jumpcut.Json.Writer
import Jumpcut.Timeline.Basic

namespace Jumpcut

namespace Json

def ofWritable : Number → Except Fault Json
  | .int i => .ok (.int i)
  | .float x => .ok (.float x)
  | _ => .error .noField

def ofRaw : Setting.Raw → Except Fault Json
  | .text s => .ok (.str s)
  | .number x => ofWritable x

def ofItem (kind : String) (fields : Setting.Given) : Except Fault Json := do
  return .obj (("name", .str kind) :: (← fields.mapM fun p => do return (p.1, ← ofRaw p.2)))

def ofLayers {α : Type} (item : α → Except Fault Json) (layers : List (List α)) :
    Except Fault Json := do
  return .arr (← (layers.filter (!·.isEmpty)).mapM fun l => do return .arr (← l.mapM item))

def ofChunk (c : Chunk) : Except Fault Json := do
  return .arr [.int c.start, .int c.stop, ← ofWritable c.speed]

end Json

namespace Timeline

def toChunkJson (t : Timeline) : Except Fault Json :=
  match t.chunks with
  | none => .error (.complaint "Timeline too complex to convert to version 1.0")
  | some cs =>
    match t.source? "0" with
    | none => .error (.complaint "API version 1 needs one source, got many")
    | some s => do
      return .obj [("version", .str "1.0.0"), ("source", .str s.fullPath),
        ("chunks", .arr (← cs.mapM Json.ofChunk))]

def fractionText (q : Rat) : String := (Number.frac q).display

def toLayerJson (t : Timeline) : Except Fault Json := do
  let v ← Json.ofLayers (fun i : VisualItem => Json.ofItem i.kind i.fields) t.v
  let a ← Json.ofLayers (fun c : AudioClip => Json.ofItem "audio" c.fields) t.a
  return .obj [("version", .str "2.0.0"), ("timeline", .obj [("background", .str t.background),
    ("resolution", .arr [.int t.resolution.1, .int t.resolution.2]),
    ("sources", .obj (t.sources.map fun s => (s.1, .str s.2.fullPath))),
    ("timebase", .str (fractionText t.tb)), ("samplerate", .int t.rate), ("v", v), ("a", a)])]

def toJson (t : Timeline) (api : String) : Except Fault Json := do
  let v ← Version.parse api
  if v.isFirst then t.toChunkJson
  else if v.isSecond then t.toLayerJson
  else .error (.complaint ("Version " ++ v.display ++ " is not supported!"))

def writeJson (t : Timeline) (api path : String) (c : Console) : Session Unit := do
  let j ← c.check (t.toJson api)
  if !path.endsWith ".json" then c.fail "Output extension must be .json"
  Session.writeText path (j.pretty 2 0)

def printJson (t : Timeline) (api : String) (c : Console) : Session Unit := do
  Session.write ((← c.check (t.toJson api)).pretty 2 0 ++ "\n")

def ofChunks (src : Source) (cs : List Chunk) : Except Fault Timeline := do
  let (v, a) := layersOf [← Clip.ofChunks "0" 0 cs] [src]
  return ⟨[("0", src)], src.fps, src.sampleRate, src.resolution, "#000", v, a, some cs⟩

def requireMembers (j : Json) (names : List String) : Except Fault Unit :=
  match j with
  | .obj ms => names.forM fun n =>
    if ms.any (·.1 == n) then .ok ()
    else .error (.complaint ("'" ++ n ++ "' attribute not found!"))
  | _ => .error (.complaint "Data is in wrong shape!")

def requireFile (j : Json) (c : Console) : Session String := do
  match j with
  | .str path =>
    if ← Session.isFile path then return path
    else c.fail ("Could not locate media file: '" ++ path ++ "'")
  | .int _ | .bool _ => c.fail ("Could not locate media file: '" ++ j.display ++ "'")
  | _ => throw .wrongKind

def valuesOf : Json → Except Fault (List Json)
  | .obj ms => .ok (ms.map (·.2))
  | _ => .error .noField

def readJson (path : String) (t : Transcoder) (c : Console) : Session Timeline := do
  let j ← Session.ofExcept ((Json.parse (← Session.readText path)).mapError .badJson)
  c.check (requireMembers j ["version"])
  let api ← match j.get? "version" with
    | some (.str s) => pure s
    | _ => throw .noField
  let v ← c.check (Version.parse api)
  if v.isFirst then
    c.check (requireMembers j ["source", "chunks"])
    let file ← requireFile ((j.get? "source").getD .null) c
    let chunks ← c.check (WrittenChunk.validate ((j.get? "chunks").getD .null))
    let src ← Source.load file "0" t c
    c.check do ofChunks src (← chunks.mapM (·.toChunk))
  else if v.isSecond then
    c.check (requireMembers j ["timeline", "source"])
    for f in ← Session.ofExcept (valuesOf ((j.get? "source").getD .null)) do
      let _ ← requireFile f c
    throw (.refused .importVersion)
  else c.fail ("Unsupported version: " ++ v.display)

end Timeline

end Jumpcut
