import Jumpcut.Analysis.Levels
import Jumpcut.Json.Literal
import Jumpcut.Json.Reader
import Jumpcut.Json.Writer
import Jumpcut.Setting.Reader
import Jumpcut.Workspace.Basic

namespace Jumpcut

def release : String := "22w43a"

namespace Cache

/-- The key of an analysis: its name, the time base and its settings. A threshold does not
change the levels and is left out. -/
def key (tag : String) (tb : Rat) (settings : List (String × String)) : String :=
  let kept := settings.filter (·.1 != "threshold")
  let text := tag ++ ":" ++ (Number.frac tb).display ++ ":" ++
    String.join (kept.map fun p => p.1 ++ "=" ++ p.2 ++ ",")
  String.ofList text.toList.dropLast

structure Key where
  tag : String
  tb : Rat
  attrs : List (String × Setting.Raw)

def settings (attrs : List (String × Setting.Raw)) : List (String × String) :=
  attrs.map fun p => (p.1, p.2.display)

def Key.text (k : Key) : Except Fault String :=
  if (Number.frac k.tb).text.isOk && k.attrs.all fun p => p.1 == "threshold" || p.2.isWritable then
    .ok (key k.tag k.tb (settings k.attrs))
  else .error .badValue

def find (cache : Json) (path : String) (k : Key) : Except Fault (Option Levels) := do
  if ← cache.holds path then
    let key ← k.text
    let entries ← cache.member path
    if ← entries.holds key then return some (← Levels.ofJson (← entries.member key))
    else return none
  else return none

def insertEntry (entries : Json) (key : String) (l : Levels) : Except Fault Json :=
  match entries with
  | .obj es => .ok (.obj (Json.insert es key l.toJson))
  | _ => .error .wrongKind

def store (cache : Json) (path key : String) (l : Levels) : Except Fault Json := do
  match cache with
  | .obj files =>
    match files.lookup path with
    | some entries => return .obj (Json.insert files path (← insertEntry entries key l))
    | none => return .obj (files ++ [(path, .obj [(key, l.toJson)])])
  | _ => .error .wrongKind

def dirOf (temp : String) : String := Path.join (Path.dir temp) ("ae-" ++ release)

def fileOf (temp : String) : String := Path.join (dirOf temp) "cache.json"

def load (temp : String) : Session (Option Json) := do
  if ← Session.isFile (fileOf temp) then
    match Json.parse (← Session.readText (fileOf temp)) with
    | .ok j => return some j
    | .error d => throw (.badJson d)
  else return none

def stored (temp path : String) (k : Key) : Session (Option Levels) := do
  match ← load temp with
  | some j => Session.ofExcept (find j path k)
  | none => return none

def save (temp path : String) (k : Key) (l : Levels) : Session Levels := do
  if !(← Session.exists_ (dirOf temp)) then Session.makeDir (dirOf temp)
  let key ← Session.ofExcept k.text
  let j := (← load temp).getD (.obj [])
  let j ← Session.ofExcept (store j path key l)
  Session.writeText (fileOf temp) j.compact
  return l

end Cache

end Jumpcut
