import Jumpcut.Number.Basic

namespace Jumpcut

inductive Json : Type
  | null : Json
  | bool : Bool → Json
  | int : Int → Json
  | float : Float → Json
  | str : String → Json
  | arr : List Json → Json
  | obj : List (String × Json) → Json
  deriving Inhabited

namespace Json

def isNull : Json → Bool
  | .null => true
  | _ => false

def number? : Json → Option Number
  | .int i => some (.int i)
  | .float x => some (.float x)
  | .bool b => some (.int (if b then 1 else 0))
  | _ => none

def ofNumber : Number → Json
  | .int i => .int i
  | .float x => .float x
  | .frac _ => .null
  | .complex _ _ => .null

def get? (name : String) : Json → Option Json
  | .obj ms => ms.lookup name
  | _ => none

def insert (ms : List (String × Json)) (name : String) (v : Json) : List (String × Json) :=
  if ms.any (·.1 == name) then ms.map fun m => if m.1 == name then (name, v) else m
  else ms ++ [(name, v)]

end Json

end Jumpcut
