import Jumpcut.Setting.Attribute
import Jumpcut.Text.Quoted

namespace Jumpcut

open Setting

structure VideoClip where
  (start dur : Int)
  src : Raw
  offset : Int
  speed : Number
  stream : Int

structure AudioClip where
  (start dur : Int)
  src : Raw
  offset : Int
  speed : Number
  volume : Raw
  stream : Int

inductive Shape : Type
  | text : (content font : String) → (size : Int) → (align fill : String) → Shape
  | image : (src : Raw) → Shape
  | rect : (width height : Int) → (fill : String) → Shape
  | ellipse : (width height : Int) → (fill : String) → Shape

structure Drawing where
  (start dur x y : Int)
  anchor : String
  (opacity rotate : Number)
  stroke : Int
  strokeColor : String
  shape : Shape

inductive VisualItem : Type
  | clip : VideoClip → VisualItem
  | drawing : Drawing → VisualItem

namespace VisualItem

def start : VisualItem → Int
  | .clip c => c.start
  | .drawing d => d.start

def dur : VisualItem → Int
  | .clip c => c.dur
  | .drawing d => d.dur

end VisualItem

namespace Setting

private def required (name : String) (kind : AttrKind) : Attr := ⟨name, [], kind, none⟩
private def optional (name : String) (kind : AttrKind) (v : Raw) : Attr := ⟨name, [], kind, some v⟩

def videoSchema : Schema :=
  ⟨"TlVideo", [required "start" .tick, required "dur" .tick, required "src" .source,
    optional "offset" .tick (.int 0), optional "speed" .number (.int 1),
    ⟨"stream", ["track"], .natural, some (.int 0)⟩]⟩

def soundSchema : Schema :=
  ⟨"TlAudio", [required "start" .tick, required "dur" .tick, required "src" .source,
    optional "offset" .tick (.int 0), optional "speed" .number (.int 1),
    optional "volume" .volume (.int 1), ⟨"stream", ["track"], .natural, some (.int 0)⟩]⟩

def textSchema : Schema :=
  ⟨"TlText", [required "start" .tick, required "dur" .tick, required "content" .content,
    optional "x" .across (.text "50%"), optional "y" .down (.text "50%"),
    optional "font" .text (.text "Arial"), optional "size" .natural (.int 55),
    optional "align" .align (.text "left"), optional "opacity" .threshold (.int 1),
    optional "anchor" .anchor (.text "ce"), optional "rotate" .number (.int 0),
    ⟨"fill", ["color"], .text, some (.text "#FFF")⟩, optional "stroke" .natural (.int 0),
    optional "strokecolor" .color (.text "#000")]⟩

def imageSchema : Schema :=
  ⟨"TlImage", [required "start" .tick, required "dur" .tick, required "src" .source,
    optional "x" .across (.text "50%"), optional "y" .down (.text "50%"),
    optional "opacity" .threshold (.int 1), optional "anchor" .anchor (.text "ce"),
    optional "rotate" .number (.int 0), optional "stroke" .natural (.int 0),
    optional "strokecolor" .color (.text "#000")]⟩

private def boxAttrs : List Attr :=
  [required "start" .tick, required "dur" .tick, required "x" .across, required "y" .down,
    required "width" .across, required "height" .down, optional "opacity" .threshold (.int 1),
    optional "anchor" .anchor (.text "ce"), optional "rotate" .number (.int 0),
    ⟨"fill", ["color"], .color, some (.text "#c4c4c4")⟩, optional "stroke" .natural (.int 0),
    optional "strokecolor" .color (.text "#000")]

def rectSchema : Schema := ⟨"TlRect", boxAttrs⟩

def ellipseSchema : Schema := ⟨"TlEllipse", boxAttrs⟩

abbrev Given := List (String × Raw)

namespace Given

def int (vs : Given) (name : String) : Int :=
  match vs.lookup name with
  | some (.number (.int n)) => n
  | _ => 0

def number (vs : Given) (name : String) : Number :=
  match vs.lookup name with
  | some (.number x) => x
  | _ => 0

def text (vs : Given) (name : String) : String :=
  match vs.lookup name with
  | some v => v.display
  | none => ""

def raw (vs : Given) (name : String) : Raw := (vs.lookup name).getD (.text "")

def literal : Raw → String
  | .text s => Text.quoted s
  | .number (.frac q) => "Fraction(" ++ toString q.num ++ ", " ++ toString q.den ++ ")"
  | .number x => x.display

def toVideo (vs : Given) : VideoClip :=
  ⟨vs.int "start", vs.int "dur", vs.raw "src", vs.int "offset", vs.number "speed", vs.int "stream"⟩

def toAudio (vs : Given) : AudioClip :=
  ⟨vs.int "start", vs.int "dur", vs.raw "src", vs.int "offset", vs.number "speed",
    vs.raw "volume", vs.int "stream"⟩

def toDrawing (vs : Given) (shape : Shape) : Drawing :=
  ⟨vs.int "start", vs.int "dur", vs.int "x", vs.int "y", vs.text "anchor", vs.number "opacity",
    vs.number "rotate", vs.int "stroke", vs.text "strokecolor", shape⟩

def toText (vs : Given) : Shape :=
  .text (vs.text "content") (vs.text "font") (vs.int "size") (vs.text "align") (vs.text "fill")

def toImage (vs : Given) : Shape := .image (vs.raw "src")

def toRect (vs : Given) : Shape := .rect (vs.int "width") (vs.int "height") (vs.text "fill")

def toEllipse (vs : Given) : Shape := .ellipse (vs.int "width") (vs.int "height") (vs.text "fill")

end Given

end Setting

namespace VideoClip

def fields (c : VideoClip) : Given :=
  [("start", .int c.start), ("dur", .int c.dur), ("src", c.src), ("offset", .int c.offset),
    ("speed", .number c.speed), ("stream", .int c.stream)]

end VideoClip

namespace AudioClip

def fields (c : AudioClip) : Given :=
  [("start", .int c.start), ("dur", .int c.dur), ("src", c.src), ("offset", .int c.offset),
    ("speed", .number c.speed), ("volume", c.volume), ("stream", .int c.stream)]

end AudioClip

namespace Shape

def kind : Shape → String
  | .text .. => "text"
  | .image .. => "image"
  | .rect .. => "rectangle"
  | .ellipse .. => "ellipse"

def fields : Shape → Given
  | .text content font size align fill =>
    [("content", .text content), ("font", .text font), ("size", .int size), ("align", .text align),
      ("fill", .text fill)]
  | .image src => [("src", src)]
  | .rect w h fill | .ellipse w h fill =>
    [("width", .int w), ("height", .int h), ("fill", .text fill)]

end Shape

namespace Drawing

def fields (d : Drawing) : Given :=
  [("start", .int d.start), ("dur", .int d.dur), ("x", .int d.x), ("y", .int d.y),
    ("anchor", .text d.anchor), ("opacity", .number d.opacity), ("rotate", .number d.rotate),
    ("stroke", .int d.stroke), ("strokecolor", .text d.strokeColor)] ++ d.shape.fields

end Drawing

namespace VisualItem

def kind : VisualItem → String
  | .clip _ => "video"
  | .drawing d => d.shape.kind

def fields : VisualItem → Given
  | .clip c => c.fields
  | .drawing d => d.fields

end VisualItem

namespace Setting

def schemas : List Schema :=
  [videoSchema, soundSchema, textSchema, imageSchema, rectSchema, ellipseSchema]

def visual? : String → Option (Schema × (Given → VisualItem))
  | "rectangle" => some (rectSchema, fun vs => .drawing (vs.toDrawing vs.toRect))
  | "ellipse" => some (ellipseSchema, fun vs => .drawing (vs.toDrawing vs.toEllipse))
  | "text" => some (textSchema, fun vs => .drawing (vs.toDrawing vs.toText))
  | "image" => some (imageSchema, fun vs => .drawing (vs.toDrawing vs.toImage))
  | "video" => some (videoSchema, fun vs => .clip vs.toVideo)
  | _ => none

def itemName (kind : String) : Except Fault String :=
  if kind = "audio" || (visual? kind).isSome then .ok kind else .error (.refused .unknownObject)

end Setting

end Jumpcut
