import Jumpcut.Flags.Basic
import Jumpcut.Json.Access
import Jumpcut.Number.Power

namespace Jumpcut

inductive LevelKind : Type
  | share | count
  deriving DecidableEq, Repr

structure Levels where
  kind : LevelKind
  values : List Number

def Levels.atLeast (t : Number) (l : Levels) : Flags := l.values.map t.le

def Levels.zero (kind : LevelKind) (n : Int) : Levels :=
  ⟨kind, List.replicate n.toNat (match kind with
    | .share => .float 0.0
    | .count => 0)⟩

namespace LevelKind

def name : LevelKind → String
  | .share => "float64"
  | .count => "uint64"

def named (s : String) : Except Fault LevelKind :=
  match s with
  | "float64" => .ok .share
  | "uint64" => .ok .count
  | _ => .error .wrongKind

def keep : LevelKind → Number → Except Fault Number
  | .share, x => do return .float (← x.toFloat)
  | .count, x => do return .int (← x.trunc)

end LevelKind

namespace Levels

def toJson (l : Levels) : Json :=
  .obj [("type", .str l.kind.name), ("arr", .arr (l.values.map Json.ofNumber))]

def ofJson (j : Json) : Except Fault Levels := do
  let values ← (← j.member "arr").elements
  match ← j.member "type" with
  | .str s => do
    let kind ← LevelKind.named s
    let values ← values.mapM fun v =>
      match v.number? with
      | some x => kind.keep x
      | none => .error .badValue
    return ⟨kind, values⟩
  | _ => .error .wrongKind

end Levels

end Jumpcut
