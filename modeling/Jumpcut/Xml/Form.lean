import Jumpcut.Setting.Reader
import Jumpcut.Fault
import Jumpcut.Xml.Basic

namespace Jumpcut.Xml

inductive Leaf : Type
  | text | int | fraction | truth
  deriving DecidableEq, Repr

inductive Form : Type
  | keep : Form
  | leaf : Leaf → Form
  /-- Children in turn; `many` says whether there may be several such elements. -/
  | group : (many : Bool) → (fields : List (String × Form)) → Form

inductive Value : Type
  | element : Xml → Value
  | text : String → Value
  | int : Int → Value
  | fraction : Rat → Value
  | truth : Bool → Value
  | group : List (String × Value) → Value
  | list : List (List (String × Value)) → Value

abbrev Fields := List (String × Value)

namespace Fields

def put (fs : Fields) (name : String) (v : Value) : Fields :=
  if fs.any (·.1 == name) then fs.map fun f => if f.1 == name then (name, v) else f
  else fs ++ [(name, v)]

def putOnce (fs : Fields) (name : String) (v : Value) : Except Fault Fields :=
  if fs.any (·.1 == name) then .error (.complaint ("<" ++ name ++ "> can only occur once"))
  else .ok (fs ++ [(name, v)])

def push (fs : Fields) (name : String) (v : Fields) : Fields :=
  match fs.lookup name with
  | some (.list vs) => fs.put name (.list (vs ++ [v]))
  | _ => fs.put name (.list [v])

def get (fs : Fields) (name : String) : Except Fault Value :=
  match fs.lookup name with
  | some v => .ok v
  | none => .error .noKey

def group (fs : Fields) (name : String) : Except Fault Fields := do
  match ← fs.get name with
  | .group g => return g
  | _ => .error .wrongKind

def list (fs : Fields) (name : String) : Except Fault (List Fields) := do
  match ← fs.get name with
  | .list l => return l
  | _ => .error .wrongKind

def int (fs : Fields) (name : String) : Except Fault Int := do
  match ← fs.get name with
  | .int n => return n
  | _ => .error .wrongKind

def fraction (fs : Fields) (name : String) : Except Fault Rat := do
  match ← fs.get name with
  | .fraction q => return q
  | _ => .error .wrongKind

def truth (fs : Fields) (name : String) : Except Fault Bool := do
  match ← fs.get name with
  | .truth b => return b
  | _ => .error .wrongKind

def text (fs : Fields) (name : String) : Except Fault String := do
  match ← fs.get name with
  | .text s => return s
  | _ => .error .wrongKind

def element (fs : Fields) (name : String) : Except Fault Xml := do
  match ← fs.get name with
  | .element x => return x
  | _ => .error .wrongKind

def element? (fs : Fields) (name : String) : Option Xml :=
  match fs.lookup name with
  | some (.element x) => some x
  | _ => none

end Fields

def Leaf.read (text : Option String) : Leaf → Except Fault Value
  | .text => .ok (.text (text.getD "None"))
  | .int =>
    match text with
    | none => .error .wrongKind
    | some s =>
      match Decimal.int? s with
      | some n => .ok (.int n)
      | none => .error .badValue
  | .fraction =>
    match text with
    | none => .error .wrongKind
    | some s => (Setting.fraction s).map .fraction
  | .truth =>
    if text = some "TRUE" then .ok (.truth true)
    else if text = some "FALSE" then .ok (.truth false)
    else .error .notTruth

def emptyLists (fields : List (String × Form)) : Fields :=
  fields.filterMap fun
    | (n, .group true _) => some (n, .list [])
    | _ => none

mutual

def read (fields : List (String × Form)) : Xml → Except Fault Fields
  | .element _ _ _ children => readAll fields (emptyLists fields) children

def readAll (fields : List (String × Form)) (done : Fields) : List Xml → Except Fault Fields
  | [] => .ok done
  | x :: xs =>
    match fields.lookup x.tag with
    | none => readAll fields done xs
    | some .keep => readAll fields (done.put x.tag (.element x)) xs
    | some (.leaf l) => do readAll fields (← done.putOnce x.tag (← l.read x.text)) xs
    | some (.group many inner) => do
      let g ← read inner x
      readAll fields (← if many then .ok (done.push x.tag g) else done.putOnce x.tag (.group g)) xs

end

end Jumpcut.Xml
