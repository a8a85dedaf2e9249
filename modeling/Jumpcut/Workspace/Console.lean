import Jumpcut.Workspace.Basic

namespace Jumpcut

open Session

structure Console where
  (debug quiet : Bool)
  temp : Option String
  deriving DecidableEq, Repr

namespace Console

def plain : Console := ⟨false, false, none⟩

def spaces (n : Int) : String := String.ofList (List.replicate n.toNat ' ')

def overwrite (c : Console) (message : String) : Session Unit := do
  if !c.quiet then
    let pad := spaces ((← get).columns - (message.length : Int) - 3)
    write ("  " ++ message ++ pad ++ "\r")

def note (c : Console) (message : String) : Session Unit := do
  if c.debug then
    c.overwrite ""
    writeErr ("Debug: " ++ message ++ "\n")

def print (c : Console) (message : String) : Session Unit := do
  if !c.quiet then write (message ++ "\n")

def warn (c : Console) (message : String) : Session Unit := do
  if !c.quiet then
    c.overwrite ""
    writeErr ("Warning! " ++ message ++ "\n")

def cleanup (c : Console) : Session Unit := do
  match c.temp with
  | none => return
  | some t =>
    let first ← try removeDir t; pure (some true) catch
      | .noFile => pure none
      | .denied => pure (some false)
      | e => throw e
    match first with
    | none => return
    | some true => c.note "Removed Temp Directory."
    | some false =>
      let again ← try removeDir t; pure true catch _ => pure false
      c.note (if again then "Removed Temp Directory." else "Failed to delete temp dir.")

def fail {α : Type} (c : Console) (message : String) : Session α := do
  c.overwrite ""
  writeErr ("Error! " ++ message ++ "\n")
  c.cleanup
  if (← get).platform = .linux then throw (.exit (.int 1)) else throw (.killed 1)

def noFile {α : Type} (c : Console) (path : String) : Session α :=
  c.fail ("Could not find '" ++ path ++ "'")

def check {α : Type} (c : Console) : Except Fault α → Session α
  | .ok a => pure a
  | .error (.complaint message) => c.fail message
  | .error e => throw e

def guard {α : Type} (c : Console) (act : Session α) : Session α :=
  try act catch
    | .complaint message => c.fail message
    | e => throw e

end Console

end Jumpcut
