import Jumpcut.Text.ShellWords
import Jumpcut.Workspace.Console
import Jumpcut.Workspace.Programs

namespace Jumpcut

inductive Opener : Type
  | command | association
  deriving DecidableEq, Repr

namespace Opener

def start (args : List String) : Session Bool :=
  try
    let _ ← Session.run args
    return true
  catch
    | .interrupted => throw .interrupted
    | _ => return false

def openFile (path : String) (c : Console) : Opener → Session Unit
  | .association => do
    Session.record ["(startfile)", path]
    if (← get).programs.missing.contains "startfile" then
      c.warn "Could not find application to open file."
  | .command => do
    if ← start ["open", path] then return
    if ← start ["cmd.exe", "/C", "start", path] then return
    if ← start ["xdg-open", path] then return
    c.warn "Could not open output file."

def play (player path : String) : Session Unit := do
  let words ← Session.ofExcept (Text.shellWords player)
  let _ ← Session.run (words ++ [path])

end Opener

end Jumpcut
