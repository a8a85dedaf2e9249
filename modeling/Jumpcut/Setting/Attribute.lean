import Jumpcut.Setting.Color
import Jumpcut.Setting.Reader
import Jumpcut.Text.Replace
import Jumpcut.Text.Similar

namespace Jumpcut.Setting

inductive AttrKind : Type
  | natural | number | integer | text | source | volume | content | align | anchor | color
  | threshold | levelThreshold | stream | tick | across | down
  deriving DecidableEq, Repr

structure Extent where
  (width height stop : Option Int)
  tb : Option Rat
  deriving DecidableEq, Repr

def Extent.none : Extent := ⟨.none, .none, .none, .none⟩

structure Attr where
  name : String
  aliases : List String
  kind : AttrKind
  default : Option Raw

def Attr.names (a : Attr) : List String := a.name :: a.aliases

structure Schema where
  title : String
  attrs : List Attr

abbrev Attributes := List (String × Option Raw)

def content (s : String) : String :=
  String.ofList (Text.replaceAll ['\\', ';'] [','] (Text.replaceAll ['\\', 'n'] ['\n'] s.toList))

def tick (e : Extent) (val : Raw) : Except Fault Int :=
  match e.tb, e.stop, val with
  | some _, some _, .number (.int n) => .ok n
  | some _, some _, .text "start" => .ok 0
  | some _, some stop, .text "end" => .ok stop
  | some tb, some _, .text s => do (← time s).toTicks tb
  | _, _, _ => .error .broken

def place (length : Option Int) (val : Raw) : Except Fault Int :=
  match length with
  | some n => position val n
  | none => .error .broken

def integer : Raw → Except Fault Int
  | .text s => wholePart s
  | .number x => x.trunc

def asText (f : String → Except Fault String) : Raw → Except Fault Raw
  | .text s => do return .text (← f s)
  | .number _ => .error .wrongKind

def int (r : Except Fault Int) : Except Fault Raw := do return .number (.int (← r))

def AttrKind.read (e : Extent) : AttrKind → Raw → Except Fault Raw
  | .natural, v => int (Setting.natural v)
  | .number, v => do return .number (← Setting.number v)
  | .integer, v => int (Setting.integer v)
  | .text, v => .ok (.text v.display)
  | .source, v => Setting.source v
  | .volume, v => Setting.volume v
  | .content, v => asText (fun s => .ok (Setting.content s)) v
  | .align, v => asText Setting.align v
  | .anchor, v => asText Setting.anchor v
  | .color, v => asText Setting.color v
  | .threshold, v => do return .number (← Setting.threshold v)
  | .levelThreshold, v => do return .number (← Setting.levelThreshold v)
  | .stream, v => do
    match ← Setting.stream v with
    | .all => return .text "all"
    | .one n => return .number (.int n)
  | .tick, v => int (Setting.tick e v)
  | .across, v => int (place e.width v)
  | .down, v => int (place e.height v)

def AttrKind.isPlaced : AttrKind → Bool
  | .tick | .across | .down => true
  | _ => false

def Attr.read (a : Attr) (e : Extent) (val : Raw) : Except Fault Raw :=
  match a.kind.read e val with
  | .ok v => .ok v
  | .error fault =>
    if a.kind.isPlaced then .error fault
    else
      match fault with
      | .setting (.color _) => undefined
      | .setting problem => .error (.complaint problem.message)
      | _ => undefined
where
  undefined : Except Fault Raw :=
    .error (.complaint (a.name ++ ": variable '" ++ val.display ++ "' is not defined."))

namespace Attributes

def set (as : Attributes) (name : String) (v : Raw) : Attributes :=
  as.map fun p => if p.1 == name then (name, some v) else p

def complete : Attributes → Except Fault (List (String × Raw))
  | [] => .ok []
  | (name, none) :: _ => .error (.complaint ("'" ++ name ++ "' must be specified."))
  | (name, some v) :: as => do return (name, v) :: (← complete as)

end Attributes

namespace Schema

def defaults (s : Schema) (e : Extent) (readDefaults : Bool) : Except Fault Attributes :=
  s.attrs.mapM fun a =>
    match a.default with
    | some v => do return (a.name, some (← if readDefaults then a.read e v else pure v))
    | none => .ok (a.name, none)

def unexpected (s : Schema) (key : String) : String :=
  let known := s.attrs.flatMap Attr.names
  let near := Text.closeMatches key known.eraseDups
  s.title ++ " got an unexpected keyword '" ++ key ++ "'\n" ++
    (if near.isEmpty then "" else "\n    Did you mean:\n        " ++ ", ".intercalate near)

/-- Reads the given values one by one; `rest` are the attributes that a position can still
name. -/
def readParts (s : Schema) (e : Extent) : (named : Bool) → (rest : List Attr) → Attributes →
    List String → Except Fault Attributes
  | _, _, as, [] => .ok as
  | _, [], _, part :: _ =>
    .error (.complaint (s.title ++ " has too many arguments, starting with '" ++ part ++ "'."))
  | named, a :: rest, as, part :: ps =>
    match parts '=' part with
    | [key, val] =>
      match s.attrs.find? fun a => a.names.contains key with
      | some b => do readParts s e true rest (as.set b.name (← b.read e val)) ps
      | none => .error (.complaint (s.unexpected key))
    | [_] =>
      if named then
        .error (.complaint (s.title ++ " positional argument follows keyword argument."))
      else do readParts s e false rest (as.set a.name (← a.read e part)) ps
    | _ => .error (.complaint (s.title ++ " invalid syntax: '" ++ part ++ "'."))

def read (s : Schema) (e : Extent) (readDefaults : Bool) (text : String) :
    Except Fault (List (String × Raw)) := do
  let as ← s.defaults e readDefaults
  if text = "" then as.complete
  else (← s.readParts e false s.attrs as (parts ',' text)).complete

end Schema

end Jumpcut.Setting
