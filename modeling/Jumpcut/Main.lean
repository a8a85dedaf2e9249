import Jumpcut.App

namespace Jumpcut.Main

partial def readLines (input : IO.FS.Stream) : IO (List String) := do
  let line ← input.getLine
  if line.isEmpty then return []
  let text := String.ofList (line.toList.filter (· ≠ '\n'))
  return text :: (← readLines input)

def load (t : Tree) (path : String) : IO Tree :=
  try return t.place (absolutePath path) (← IO.FS.readBinFile path) catch _ => return t

def programs : Programs :=
  { version := "", output := "", errors := "", noOutput := true, interruptAt := none
    brokenPipeAt := none, downloadName := "", downloads := false, defaults := ""
    missing := ["ffmpeg", "ffprobe", "yt-dlp", "open", "cmd.exe", "xdg-open"] }

def workspace (args : List String) : IO Workspace := do
  let tree ← args.foldlM load ((Tree.mk [] []).addDirs tempRoot)
  let input ← if args.head? = some "repl" then readLines (← IO.getStdin) else pure []
  return { tree, media := [], programs, platform := .linux, input }

def outside (path : String) : String :=
  if Tree.within workDir path then String.ofList (path.toList.drop (workDir.length + 1)) else path

def save (old new : Tree) : IO Unit :=
  new.files.forM fun (path, bytes) => do
    if (old.read? path).map (·.toList) != some bytes.toList && !Tree.within tempRoot path then
      IO.FS.writeBinFile (outside path) bytes

def exitStatus : Fault → UInt32
  | .exit (.int n) => UInt32.ofNat (n % 256).toNat
  | .exit c => if c.isSuccess then 0 else 1
  | .killed n => UInt32.ofNat n
  | _ => 1

end Jumpcut.Main

open Jumpcut in
def main (args : List String) : IO UInt32 := do
  let start ← Main.workspace args
  let (status, w) := match App.run args start with
    | .ok _ w => (0, w)
    | .error e w => (Main.exitStatus e, w)
  (← IO.getStdout).putStr w.out
  (← IO.getStderr).putStr w.err
  Main.save start.tree w.tree
  return status
