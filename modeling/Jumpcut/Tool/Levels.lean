import Jumpcut.Analysis.Method
import Jumpcut.Tool.Basic

namespace Jumpcut.Tool

open CommandLine

def splitMethod (text : String) : Except Fault (String × String) :=
  match Setting.parts ':' text with
  | [m] => .ok (m, "")
  | [m, attrs] => .ok (m, attrs)
  | _ => .error .badValue

def levelMethods : List String := ["audio", "motion", "pixeldiff", "random"]

def levelLine (kind : LevelKind) (x : Number) : Except Fault String := do
  match kind with
  | .share => return Decimal.fixed 20 (← x.toFloat) ++ "\n"
  | .count => return x.display ++ "\n"

def levelsOf (s : Setup) (method attrs : String) : Session Levels := do
  let read (sc : Setting.Schema) (e : Setting.Extent) : Session Method.Values :=
    s.console.check ((Method.levelsOnly sc).read e false attrs)
  match method with
  | "audio" =>
    match (← read Method.audioSchema .none).lookup "stream" with
    | some (.number (.int n)) => s.loudness n
    | _ => throw .wrongKind
  | "motion" => s.motion (← read Method.motionSchema (Method.extentOf s.src))
  | "pixeldiff" => s.pixels (← read Method.pixelSchema .none)
  | _ => s.random (← read Method.randomSchema .none)

def levels (vs : Values) : Session Unit := do
  let t ← transcoder vs
  let temp ← Fetch.tempDir none .plain
  let c : Console := { Console.plain with temp := some temp }
  let sources ← sources vs t c
  match sources with
  | [] => throw .broken
  | first :: _ =>
    let tb := (vs.rat? "timebase").getD first.fps
    let (method, attrs) ← Session.ofExcept (splitMethod (vs.text "edit"))
    if method ∉ levelMethods then c.fail ("Method: " ++ method ++ " not supported")
    sources.forM fun src => do
      let s : Setup := ⟨src, ⟨t, first.sampleRate, temp, c⟩, true, tb, Bar.hidden, temp, c⟩
      let l ← levelsOf s method attrs
      Session.write (String.join (← Session.ofExcept (l.values.mapM (levelLine l.kind))))
  c.cleanup

end Jumpcut.Tool
