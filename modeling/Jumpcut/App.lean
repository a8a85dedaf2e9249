import Jumpcut.Edit.Run
import Jumpcut.Tool.Info
import Jumpcut.Tool.Dump
import Jumpcut.Tool.Grep
import Jumpcut.Tool.Levels
import Jumpcut.Tool.Prompt

namespace Jumpcut.App

open CommandLine

def versionNumber : String := "22.43.1"

def versionText : String := release ++ " (" ++ versionNumber ++ ")"

def runTool (name : String) (p : Program) (args : List String) : Session Unit := do
  let vs ← p.ask args
  match name with
  | "info" => Tool.info vs
  | "levels" => Tool.levels vs
  | "grep" => Tool.grep vs
  | "subdump" => Tool.dump vs
  | "desc" => Tool.describe vs
  | "repl" => Tool.prompt ("Auto-Editor " ++ versionText) vs
  | _ => return

def details (t : Transcoder) (p : Platform) : String :=
  "Python Version: 3.11.6 64-bit\n" ++
  "Platform: " ++ p.name ++ " 6.1.0 x86_64\n" ++
  "FFmpeg Version: " ++ t.version ++ "\nFFmpeg Path: " ++ t.path ++ "\n" ++
  "Auto-Editor Version: " ++ release ++ "\n"

def isForEditor (o : Options) : Bool :=
  o.exportAs.any fun e =>
    e.startsWith "premiere" || e.startsWith "final-cut-pro" || e.startsWith "shotcut"

def joined (o : Options) (t : Transcoder) (paths : List String) : Session (List String) := do
  if isForEditor o && 1 < paths.length then
    t.run (paths.flatMap (["-i", ·]) ++ ["-filter_complex",
      "[0:v]concat=n=" ++ toString paths.length ++ ":v=1:a=1", "-codec:v", "h264", "-pix_fmt",
      "yuv420p", "-strict", "-2", "combined.mp4"])
    return ["combined.mp4"]
  else return paths

def edit (o : Options) : Session Unit := do
  if o.version then
    Session.write (versionText ++ "\n")
    throw (.exit .none)
  let t ← Transcoder.locate o.transcoder o.showTranscoder
  if o.inputs.isEmpty then
    if o.debug then
      Session.write (details t (← get).platform)
      throw (.exit .none)
    (Console.mk o.debug o.quiet none).fail "You need to give auto-editor an input file."
  let temp ← Fetch.tempDir o.tempDir .plain
  let c : Console := ⟨o.debug, o.quiet, some temp⟩
  c.note ("Temp Directory: " ++ temp)
  let paths ← joined o t (← Fetch.inputs o t c o.inputs)
  (← Edit.run paths t o temp c).cleanup

def run (args : List String) : Session Unit := do
  match choose args with
  | (some name, p, args) =>
    runTool name p args
    throw (.exit .none)
  | (none, p, args) => edit (.ofValues (← p.ask args))

end Jumpcut.App
