import Jumpcut.Workspace.Basic

namespace Jumpcut

structure Printed where
  (out err : String)

namespace Session

def outputExtensions : List String := [".mp4", ".mkv", ".mov", ".m4a", ".wav", ".mp3", ".webm",
  ".avi", ".gif", ".flac", ".ogg", ".ogv", ".swf", ".png", ".mjpeg", ".webp", ".vtt", ".srt",
  ".ass", ".aac", ".opus", ".wmv", ".weird"]

def subtitleExtensions : List String := [".vtt", ".srt", ".ass"]

def inputsOf : List String → List String
  | "-i" :: p :: rest => p :: inputsOf (p :: rest)
  | _ :: rest => inputsOf rest
  | [] => []

def outputsOf : (previous : String) → List String → List String
  | _, [] => []
  | prev, a :: rest =>
    if prev ≠ "-i" ∧ Path.ext a ∈ outputExtensions then a :: outputsOf a rest
    else outputsOf a rest

def audioPick (args : List String) : Option Nat :=
  args.findSome? fun a =>
    match a.toList with
    | '0' :: ':' :: 'a' :: ':' :: ds => (String.ofList ds).toNat?
    | _ => none

def deposit (p : String) (b : ByteArray) : Session Unit :=
  try writeBytes p b catch _ => pure ()

def copyInput (input : Option String) (out : String) : Session Unit := do
  match input with
  | none => pure ()
  | some p =>
    match (← get).tree.read? (absolutePath p) with
    | some b => deposit out b
    | none => pure ()

def encode (args : List String) (first : Option String) (medium : Option Medium) :
    Nat → List String → Session Unit
  | _, [] => pure ()
  | k, out :: outs => do
    let ext := Path.ext out
    match ext == ".wav", audioPick args, medium with
    | true, some n, some m =>
      match m.audio[n]? with
      | some b => deposit out b
      | none => pure ()
      encode args first medium k outs
    | _, _, _ =>
      if "-af" ∈ args then
        copyInput first out
        encode args first medium k outs
      else if ext ∈ subtitleExtensions then
        match medium with
        | some m =>
          match m.subtitles[k]? with
          | some s => deposit out s.toUTF8
          | none => pure ()
        | none => copyInput first out
        encode args first medium (k + 1) outs
      else
        if !(← get).programs.noOutput then deposit out ByteArray.empty
        encode args first medium k outs

def start (command : List String) : Session Unit := do
  record command
  let w ← get
  set { w with started := w.started + 1 }
  if w.programs.interruptAt = some w.started then throw .interrupted
  if Path.base (command.headD "") ∈ w.programs.missing then throw .noFile

def run (command : List String) : Session Printed := do
  start command
  let w ← get
  let args := command.drop 1
  match Path.stem (Path.base (command.headD "")) with
  | "ffmpeg" =>
    if args = ["-version"] then return ⟨w.programs.version ++ "\nbuilt\n", ""⟩
    else
      let first := (inputsOf args).head?
      let medium := first.bind fun p => w.media.lookup (absolutePath p)
      encode args first medium 0 (outputsOf "" args)
      return ⟨w.programs.output, w.programs.errors⟩
  | "ffprobe" =>
    match w.media.lookup (absolutePath (args.getLast?.getD "")) with
    | some m => return ⟨m.probe, ""⟩
    | none => return ⟨"", ""⟩
  | "yt-dlp" =>
    if "--get-filename" ∈ args then return ⟨w.programs.downloadName ++ "\n", ""⟩
    else
      if w.programs.downloads then deposit w.programs.downloadName ByteArray.empty
      return ⟨"", ""⟩
  | "defaults" => return ⟨w.programs.defaults, ""⟩
  | _ => return ⟨"", ""⟩

def outputOf (command : List String) : Session String := do return (← run command).out

end Session

end Jumpcut
