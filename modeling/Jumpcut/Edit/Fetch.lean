import Jumpcut.Media.Transcoder
import Jumpcut.Options
import Jumpcut.Url

namespace Jumpcut

namespace Fetch

def formatFor (o : Options) (address : String) : Except Fault (Option String) := do
  match o.downloadFormat with
  | some f => return some f
  | none =>
    if (← Url.parse address).domain = "youtube.com" then
      return some "bestvideo[ext=mp4]+bestaudio[ext=m4a]"
    else return none

def wordsOnly (s : String) : String := (Pattern.plus (.oneOf [.notWord])).replace "-" s

def template (o : Options) (address : String) : String :=
  match o.outputFormat with
  | some f => f
  | none => wordsOnly (Path.stem address) ++ ".%(ext)s"

def arguments (o : Options) (t : Transcoder) (address : String) : Except Fault (List String) := do
  let format := match ← formatFor o address with
    | some f => ["-f", f]
    | none => []
  let extras := match o.downloadExtras with
    | some s => Setting.parts ' ' s
    | none => []
  return ["--ffmpeg-location", t.path] ++ format ++ ["-o", template o address, address] ++ extras

def missingMessage (p : Platform) : String :=
  "Could not find program 'yt-dlp' when attempting to download a URL. Install yt-dlp with " ++
  match p with
  | .windows => "your favorite package manager (pip, choco, winget)."
  | .darwin => "brew or pip and make sure it's in PATH."
  | .linux => "pip or your favorite package manager and make sure it's in PATH."

def download (o : Options) (t : Transcoder) (c : Console) (address : String) : Session String := do
  c.overwrite "Downloading video..."
  let args ← Session.ofExcept (arguments o t address)
  let printed ← try
      Session.outputOf ([o.downloader, "--get-filename", "--no-warnings"] ++ args)
    catch
      | .noFile => do c.fail (missingMessage (← get).platform)
      | e => throw e
  let file := Text.strip printed
  if !(← Session.isFile file) then
    let _ ← Session.run (o.downloader :: args)
  if !(← Session.isFile file) then c.fail ("Download file wasn't created: " ++ file)
  return file

def input (o : Options) (t : Transcoder) (c : Console) (path : String) : Session String := do
  if ← Session.isFile path then
    if Path.ext path = "" then c.fail "File must have an extension."
    return path
  else if path.startsWith "http://" || path.startsWith "https://" then download o t c path
  else
    if ← Session.isDir path then c.fail "Input must be a file or a URL, not a directory."
    c.noFile path

def inputs (o : Options) (t : Transcoder) (c : Console) (paths : List String) :
    Session (List String) :=
  paths.mapM (input o t c)

def tempDir (wish : Option String) (c : Console) : Session String := do
  match wish with
  | none => Session.makeTemp
  | some dir =>
    if ← Session.isFile dir then c.fail "Temp directory cannot be an already existing file."
    if ← Session.isDir dir then
      if !(← Session.listDir dir).isEmpty then c.fail "Temp directory should be empty!"
    else Session.makeDir dir
    return dir

end Fetch

end Jumpcut
