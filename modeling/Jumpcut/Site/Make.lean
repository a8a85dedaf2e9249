import Jumpcut.Site.Component
import Jumpcut.Workspace.Basic

namespace Jumpcut

open Session

structure Site where
  (source output : String)
  production : Bool
  deriving DecidableEq, Repr

namespace Site

def stop {α : Type} (message : String) : Session α := do
  writeErr ("Error! " ++ message ++ "\n")
  throw (.exit (.int 1))

def Flaw.raise {α : Type} (lines : List String) : Flaw → Session α
  | .manyDollars => stop "Only one dollar allowed"
  | .notDollars words =>
    stop ("Can't convert \"" ++ Text.quotedList words ++ "\" to dollar syntax.")
  | .unknownComponent name => do
    write (Text.quotedList lines ++ "\n")
    stop (name ++ " is not in components.")
  | .unknownVariable name => stop ("Cannot use variable: " ++ name)
  | .fault e => throw e
  | .unending => throw .exhausted

def check {α : Type} (lines : List String) : Except Flaw α → Session α
  | .ok a => pure a
  | .error e => e.raise lines

def componentDir (s : Site) : String := Path.join s.source "components"

def components (s : Site) : Session Components := do
  let names ← listDir s.componentDir
  (names.filter fun n => !n.startsWith ".").foldlM (fun cs n => do
    return cs.insert (Path.stem n) (← readText (Path.join s.componentDir n))) []

def freshDir (path : String) : Session Unit := do
  try makeDir path catch _ => do
    removeDir path
    makeDir path

def isPage (ext : String) : Bool := [".html", ".css", ".txt", ".js"].contains ext

def finished (s : Site) (name out : String) (lines : List String) : String × List String :=
  if s.production && Path.ext name == ".html" then
    (if Text.occurs "index".toList name.toList then out else Path.stem out,
      lines.map fun l => String.ofList (Text.replaceAll ".html".toList [] l.toList))
  else (out, lines)

def placeFile (s : Site) (cs : Components) (name file out : String) : Session Unit := do
  if isPage (Path.ext file) then
    let lines := (Text.lines (← readText file).toList).map String.ofList
    let (out, lines) := s.finished name out (← check lines (cs.fillLines lines))
    writeText out (String.join lines)
  else if name ≠ ".DS_Store" then writeBytes out (← readBytes file)

def placeDir (s : Site) (cs : Components) : (depth : Nat) → (dir out : String) → Session Unit
  | 0, _, _ => throw .exhausted
  | depth + 1, dir, out => do
    freshDir out
    (← listDir dir).forM fun name => do
      let file := Path.join dir name
      let new := Path.join out name
      if ← isDir file then
        if file ≠ s.componentDir then s.placeDir cs depth file new
      else s.placeFile cs name file new

def make (s : Site) : Session Unit := do
  if !(← isDir s.componentDir) then
    stop ("components dir: '" ++ s.componentDir ++ "' not found")
  let cs ← s.components
  s.placeDir cs ((← get).tree.dirs.length + 1) s.source s.output

end Site

end Jumpcut
