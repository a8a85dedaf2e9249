import Jumpcut.Media.Source
import Jumpcut.Setting.Attribute

namespace Jumpcut

inductive Export : Type
  | default | premiere | finalCut | shotcut
  | json : (api : String) → Export
  | timeline : (api : String) → Export
  | audio | clipSequence
  deriving DecidableEq, Repr

namespace Export

open Setting

private def apiAttr : Attr := ⟨"api", [], .text, some (.text "1.0.0")⟩

def defaultSchema : Schema := ⟨"ExDefault", []⟩
def jsonSchema : Schema := ⟨"ExJson", [apiAttr]⟩

def schemas : List Schema := [defaultSchema, jsonSchema]

private def apiOf (vs : List (String × Raw)) : String :=
  match vs.lookup "api" with
  | some v => v.display
  | none => ""

def kinds : List (String × Schema × (String → Export)) :=
  [ ("default", defaultSchema, fun _ => .default)
  , ("premiere", ⟨"ExPremiere", []⟩, fun _ => .premiere)
  , ("final-cut-pro", ⟨"ExFinalCutPro", []⟩, fun _ => .finalCut)
  , ("shotcut", ⟨"ExShotCut", []⟩, fun _ => .shotcut)
  , ("json", jsonSchema, .json)
  , ("timeline", ⟨"ExTimeline", [apiAttr]⟩, .timeline)
  , ("audio", ⟨"ExAudio", []⟩, fun _ => .audio)
  , ("clip-sequence", ⟨"ExClipSequence", []⟩, fun _ => .clipSequence) ]

def cutAtColon (s : String) : String × String :=
  let cs := s.toList
  (String.ofList (cs.takeWhile (· ≠ ':')), String.ofList ((cs.dropWhile (· ≠ ':')).drop 1))

def parse (text : String) : Except Fault Export :=
  let (name, attrs) := cutAtColon text
  match kinds.lookup name with
  | some (schema, make) => do return make (apiOf (← schema.read .none false attrs))
  | none => .error (.complaint ("'" ++ name ++ "': Export must be [" ++
      ", ".intercalate (kinds.map (·.1)) ++ "]"))

def ofExt : String → Export
  | ".xml" => .premiere
  | ".fcpxml" => .finalCut
  | ".mlt" => .shotcut
  | ".json" => .json "1"
  | _ => .default

def extension (ext : String) : Export → String
  | .premiere => ".xml"
  | .finalCut => ".fcpxml"
  | .shotcut => ".mlt"
  | .json _ => ".json"
  | .audio => ".wav"
  | _ => ext

def output (out wish : Option String) (src : Option Source) : Except Fault (String × Export) := do
  let wish ← wish.mapM parse
  let (root, ext) := match src with
    | none => ("out", ".mp4")
    | some s =>
      let (root, ext) := Path.splitExt (out.getD s.path)
      (root, if ext = "" then s.ext else ext)
  let kind := wish.getD (ofExt ext)
  let ext := kind.extension ext
  match out with
  | none => return (root ++ "_ALTERED" ++ ext, kind)
  | some _ => return (root ++ ext, kind)

end Export

end Jumpcut
