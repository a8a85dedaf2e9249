import Jumpcut.Fault
import Jumpcut.Media.Basic
import Jumpcut.Text.Lines
import Jumpcut.Workspace.Tree

/-!
The workspace an edit runs in: files, media, the programs at hand, what was printed and which
commands were started. A session is a computation that may fail and changes the workspace also
then.
-/
namespace Jumpcut

inductive Platform : Type
  | linux | darwin | windows
  deriving DecidableEq, Repr

def Platform.name : Platform → String
  | .linux => "Linux"
  | .darwin => "Darwin"
  | .windows => "Windows"

def Platform.named : String → Platform
  | "Darwin" => .darwin
  | "Windows" => .windows
  | _ => .linux

inductive Charset : Type
  | unicode | latin | ascii
  deriving DecidableEq, Repr

def Charset.named : String → Charset
  | "ascii" => .ascii
  | "latin-1" => .latin
  | _ => .unicode

def Charset.has : Charset → Char → Bool
  | .unicode, _ => true
  | .latin, c => c.toNat < 256
  | .ascii, c => c.toNat < 128

structure Programs where
  (version output errors : String)
  noOutput : Bool
  interruptAt : Option Nat
  brokenPipeAt : Option Nat
  downloadName : String
  downloads : Bool
  defaults : String
  missing : List String

structure Workspace where
  tree : Tree
  media : List (String × Medium)
  programs : Programs
  platform : Platform
  columns : Nat := 80
  charset : Charset := .unicode
  input : List String := []
  clock : List Float := []
  locks : Nat := 0
  temps : Nat := 0
  (out err : String := "")
  commands : List (List String) := []
  frames : List (List UInt8) := []
  (writes started : Nat := 0)

abbrev Session := EStateM Fault Workspace

def workDir : String := "/work"

def tempRoot : String := "/work/.tmp"

def absolutePath (p : String) : String := Path.absolute workDir p

namespace Session

def ofExcept {α : Type} : Except Fault α → Session α
  | .ok a => pure a
  | .error e => throw e

def write (s : String) : Session Unit := do
  let w ← get
  if s.toList.all w.charset.has then set { w with out := w.out ++ s }
  else throw .unencodable

def writeErr (s : String) : Session Unit :=
  modify fun w => { w with err := w.err ++ s }

def isFile (p : String) : Session Bool := do return (← get).tree.isFile (absolutePath p)
def isDir (p : String) : Session Bool := do return (← get).tree.isDir (absolutePath p)
def exists_ (p : String) : Session Bool := do return (← get).tree.exists_ (absolutePath p)

def readBytes (p : String) : Session ByteArray := do
  match (← get).tree.read? (absolutePath p) with
  | some b => return b
  | none => throw .noFile

def readText (p : String) : Session String := do
  match String.fromUTF8? (← readBytes p) with
  | some s => return String.ofList (Text.unifyLines s.toList)
  | none => throw .badValue

def writeBytes (p : String) (b : ByteArray) : Session Unit := do
  let w ← get
  let q := absolutePath p
  if w.tree.isDir (Path.dir q) && !w.tree.isDir q then set { w with tree := w.tree.put q b }
  else throw .noFile

def writeText (p s : String) : Session Unit := writeBytes p s.toUTF8

def removeFile (p : String) : Session Unit := do
  let w ← get
  let q := absolutePath p
  if w.tree.isFile q then set { w with tree := w.tree.remove q } else throw .noFile

def moveFile (p q : String) : Session Unit := do
  let b ← readBytes p
  removeFile p
  writeBytes q b

def makeDir (p : String) : Session Unit := do
  let w ← get
  let q := absolutePath p
  if w.tree.exists_ q then throw .occupied
  else if w.tree.isDir (Path.dir q) then set { w with tree := w.tree.addDir q }
  else throw .noFile

def removeDir (p : String) : Session Unit := do
  let w ← get
  let q := absolutePath p
  if !w.tree.isDir q then throw .noFile
  else if 0 < w.locks then do
    set { w with locks := w.locks - 1 }
    throw .denied
  else set { w with tree := w.tree.removeAll q }

def listDir (p : String) : Session (List String) := do
  let w ← get
  let q := absolutePath p
  if w.tree.isDir q then return w.tree.children q else throw .noFile

def makeTemp : Session String := do
  let w ← get
  let p := tempRoot ++ "/t" ++ toString w.temps
  set { w with temps := w.temps + 1, tree := w.tree.addDirs p }
  return p

def now : Session Float := do
  let w ← get
  match w.clock with
  | [] => return 0.0
  | [t] => return t
  | t :: ts =>
    set { w with clock := ts }
    return t

def record (command : List String) : Session Unit :=
  modify fun w => { w with commands := w.commands ++ [command] }

def sendFrame (bytes : List UInt8) : Session Unit := do
  let w ← get
  if w.programs.brokenPipeAt = some w.writes then throw .brokenPipe
  else set { w with frames := w.frames ++ [bytes], writes := w.writes + 1 }

def medium? (p : String) : Session (Option Medium) := do
  return (← get).media.lookup (absolutePath p)

end Session

end Jumpcut
