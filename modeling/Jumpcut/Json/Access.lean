import Jumpcut.Json.Basic
import Jumpcut.Text.Replace

namespace Jumpcut.Json

def holds (name : String) : Json → Except Fault Bool
  | .obj ms => .ok (ms.any (·.1 == name))
  | .arr vs => .ok (vs.any fun
    | .str s => s == name
    | _ => false)
  | .str s => .ok (Text.occurs name.toList s.toList)
  | _ => .error .wrongKind

def member (name : String) : Json → Except Fault Json
  | .obj ms =>
    match ms.lookup name with
    | some v => .ok v
    | none => .error .noKey
  | _ => .error .wrongKind

def elements : Json → Except Fault (List Json)
  | .arr vs => .ok vs
  | .obj ms => .ok (ms.map fun m => .str m.1)
  | .str s => .ok (s.toList.map fun c => .str c.toString)
  | _ => .error .wrongKind

def kindName : Json → String
  | .null => "NoneType"
  | .bool _ => "bool"
  | .int _ => "int"
  | .float _ => "float"
  | .str _ => "str"
  | .arr _ => "list"
  | .obj _ => "dict"

def toInt : Json → Except Fault Int
  | .str s =>
    match Decimal.int? s with
    | some i => .ok i
    | none => .error .badValue
  | .int i => .ok i
  | .bool b => .ok (if b then 1 else 0)
  | .float x => (Number.float x).trunc
  | _ => .error .wrongKind

end Jumpcut.Json
