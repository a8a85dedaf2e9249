import Jumpcut.Text.PatternSyntax
import Jumpcut.Workspace.Console
import Jumpcut.Workspace.Programs

namespace Jumpcut

structure Transcoder where
  (path version : String)
  debug : Bool
  deriving DecidableEq, Repr

namespace Transcoder

def standardPath : String := "ffmpeg"

def missingMessage : Platform → String
  | .darwin => "No ffmpeg found, download via homebrew or install ae-ffmpeg."
  | .windows => "No ffmpeg found, download ffmpeg with your favorite package " ++
      "manager (ex chocolatey), or install ae-ffmpeg."
  | .linux => "ffmpeg must be installed and on PATH."

def versionLead : List Char := "ffmpeg version".toList

def dropLead : List Char → List Char
  | [] => []
  | c :: cs =>
    if versionLead.isPrefixOf (c :: cs) then dropLead (cs.drop (versionLead.length - 1))
    else c :: dropLead cs
termination_by cs => cs.length

def versionOf (banner : String) : String :=
  let line := banner.toList.takeWhile (· ≠ '\n')
  let text := (Text.strip (String.ofList (dropLead line))).toList
  String.ofList (text.takeWhile (· ≠ ' '))

def locate (location : Option String) (debug : Bool) : Session Transcoder := do
  let path := location.getD standardPath
  let banner ← try Session.outputOf [path, "-version"] catch
    | .noFile => do (Console.mk false false none).fail (missingMessage (← get).platform)
    | e => throw e
  return ⟨path, versionOf banner, debug⟩

def showCommand (t : Transcoder) (command : List String) : Session Unit := do
  if t.debug then Session.writeErr ("FFmpeg run: " ++ " ".intercalate command ++ "\n")

def run (t : Transcoder) (args : List String) : Session Unit := do
  let command := [t.path, "-y", "-hide_banner"] ++ args ++
    (if t.debug then [] else ["-nostats", "-loglevel", "error"])
  t.showCommand command
  let _ ← Session.run command

def between (a b : String) : Pattern := .seqs [.word a, .star .any, .word b]

def failures : List Pattern :=
  [ between "Unknown encoder '" "'"
  , .word "-q:v qscale not available for encoder. Use -b:v bitrate instead."
  , between "Specified sample rate " " is not supported"
  , between "Unable to parse option value \"" "\""
  , .seqs [between "Error setting option " " to value ", .star .any, .lit '.']
  , .seqs [between "Undefined constant or missing '" "' in '", .star .any, .lit '\'']
  , between "DLL " " failed to open"
  , .seqs [between "Incompatible pixel format '" "' for codec '",
      .star (.oneOf [.range 'A' 'Z', .range 'a' 'z', .range '0' '9', .single '_']), .lit '\'']
  , between "Unrecognized option '" "'"
  , .word "Permission denied" ]

def failure? (messages : String) : Option String :=
  let cs := messages.toList
  failures.findSome? fun p => (p.search false cs).map fun m => String.ofList (m.span.of cs)

def runChecked (t : Transcoder) (c : Console) (args : List String) (echo : Bool)
    (path : Option String) : Session Unit := do
  let command := t.path :: args
  t.showCommand command
  let printed ← Session.run command
  if t.debug then Session.write ("stderr: " ++ printed.err ++ "\n")
  match failure? printed.err with
  | some m => c.fail m
  | none =>
    let made ← match path with
      | some p => do
        if !(← Session.isFile p) then c.fail ("The file " ++ p ++ " was not created.")
        else pure ()
      | none => pure ()
    if echo && !t.debug then Session.write ("stderr: " ++ printed.err ++ "\n")
    return made

def feed (t : Transcoder) (args : List String) : Session Unit := do
  let command := t.path :: args
  t.showCommand command
  let _ ← Session.run command

def pipe (t : Transcoder) (args : List String) : Session String := do
  let command := [t.path, "-y"] ++ args
  t.showCommand command
  let output ← Session.outputOf command
  if t.debug then Session.writeErr ("FFmpeg: " ++ output ++ "\n")
  return output

def probePath (t : Transcoder) : String :=
  Path.join (Path.dir t.path) ("ffprobe" ++ Path.ext t.path)

end Transcoder

end Jumpcut
