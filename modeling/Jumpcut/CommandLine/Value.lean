import Jumpcut.Setting.Color
import Jumpcut.Setting.Reader

namespace Jumpcut.CommandLine

inductive ArgValue : Type
  | absent : ArgValue
  | flag : Bool → ArgValue
  | text : String → ArgValue
  | number : Number → ArgValue
  | length : Length → ArgValue
  | margin : Length → Length → ArgValue
  | size : Int → Int → ArgValue
  | range : List String → ArgValue
  | speedRange : Number → String → String → ArgValue
  | many : List ArgValue → ArgValue

inductive ArgKind : Type
  | text | integer | number | speed | time | margin | timeRange | speedRange | frameRate
  | sampleRate | resolution | color
  deriving DecidableEq, Repr

def ArgKind.read (val : String) : ArgKind → Except Fault ArgValue
  | .text => .ok (.text val)
  | .integer => do return .number (.int (← Setting.wholePart val))
  | .number => do return .number (← Setting.number val)
  | .speed => do return .number (← Setting.speed val)
  | .time => do return .length (← Setting.time val)
  | .margin => do
    let (a, b) ← Setting.margin val
    return .margin a b
  | .timeRange => do return .range (← Setting.timeRange val)
  | .speedRange => do
    let (s, a, b) ← Setting.speedRange val
    return .speedRange s a b
  | .frameRate => do return .number (.frac (← Setting.frameRate val))
  | .sampleRate => do return .number (.int (← Setting.sampleRate val))
  | .resolution => do
    let (w, h) ← Setting.resolution val
    return .size w h
  | .color => do return .text (← Setting.color val)

def ArgValue.default? : ArgValue → Option String
  | .text s => some s
  | .number (.frac _) => none
  | .number x => some x.display
  | .length (.ticks n) => some (toString n)
  | .length (.seconds s) => some s
  | _ => none

abbrev Values := List (String × ArgValue)

namespace Values

def get (vs : Values) (name : String) : ArgValue := (vs.lookup name).getD .absent

def set (vs : Values) (name : String) (v : ArgValue) : Values :=
  if vs.any (·.1 == name) then vs.map fun p => if p.1 == name then (name, v) else p
  else vs ++ [(name, v)]

def append (vs : Values) (name : String) (v : ArgValue) : Except Fault Values :=
  match vs.lookup name with
  | some (.many xs) => .ok (vs.set name (.many (xs ++ [v])))
  | some _ => .error .wrongKind
  | none => .error .noField

def flag (vs : Values) (name : String) : Bool :=
  match vs.get name with
  | .flag b => b
  | _ => false

def text? (vs : Values) (name : String) : Option String :=
  match vs.get name with
  | .text s => some s
  | _ => none

def text (vs : Values) (name : String) : String := (vs.text? name).getD ""

def number? (vs : Values) (name : String) : Option Number :=
  match vs.get name with
  | .number x => some x
  | _ => none

def rat? (vs : Values) (name : String) : Option Rat := (vs.number? name).bind Number.toRat?

def int? (vs : Values) (name : String) : Option Int :=
  match vs.get name with
  | .number (.int n) => some n
  | _ => none

def length (vs : Values) (name : String) : Length :=
  match vs.get name with
  | .length l => l
  | _ => .ticks 0

def many (vs : Values) (name : String) : List ArgValue :=
  match vs.get name with
  | .many xs => xs
  | _ => []

def texts (vs : Values) (name : String) : List String :=
  (vs.many name).filterMap fun
    | .text s => some s
    | _ => none

def ranges (vs : Values) (name : String) : List (List String) :=
  (vs.many name).filterMap fun
    | .range r => some r
    | _ => none

end Values

end Jumpcut.CommandLine
