import Jumpcut.Flags.Basic
import Jumpcut.Setting.Reader

namespace Jumpcut.Range

def tick (tb : Rat) (n : Nat) (val : String) : Except Fault Int :=
  if val = "start" then .ok 0
  else if val = "end" then .ok n
  else
    match Setting.time val with
    | .ok t => t.nearestTick tb
    | .error (.setting e) => .error (.complaint e.message)
    | .error e => .error e

def fromEnd (n : Nat) (i : Int) : Int := if i < 0 then i + n else i

def setOne {α : Type} (tb : Rat) (value : α) (xs : List α) (range : List String) :
    Except Fault (List α) := do
  match ← range.mapM fun val => (tick tb xs.length val).map (fromEnd xs.length) with
  | a :: b :: _ => return paint (endpoint xs.length a) (endpoint xs.length b) value xs
  | _ => .error .outOfRange

def setAll {α : Type} (tb : Rat) (value : α) (ranges : List (List String)) (xs : List α) :
    Except Fault (List α) := ranges.foldlM (setOne tb value) xs

end Jumpcut.Range
