import Jumpcut.CommandLine.Editor
import Jumpcut.Site.Make
import Jumpcut.Text.Pattern
import Jumpcut.Workspace.Programs

namespace Jumpcut.Site

open CommandLine

def pageHead (title nav : String) : String :=
  "\x7b\x7b comp.header \"" ++ title ++ "\" \x7d\x7d\n<body>\n\x7b\x7b comp." ++ nav ++
    " \x7d\x7d\n<section class=\"section\">\n<div class=\"container\">\n"

def pageFoot : String := "</div>\n</section>\n</body>\n</html>\n\n"

def entryText : Entry → String
  | .heading text => "<h2>" ++ text ++ "</h2>\n"
  | .option o =>
    "<h3><code>" ++ o.name ++ "</code></h3>\n" ++
      (match o.names.drop 1 with
        | [] => ""
        | others => "<h4><code>" ++ "</code> <code>".intercalate others ++ "</code></h4>\n") ++
      "<p>" ++ o.help ++ "</p>\n"

def optionsPage : String :=
  pageHead "Options" "nav" ++ String.join (editorEntries.map entryText) ++ pageFoot

def versionPattern : Pattern :=
  let digit := Pattern.oneOf [.range '0' '9']
  .seqs [digit, .lit '.', digit, .lit '.', digit]

def systemOf : (ext : String) → String
  | ".dmg" => "MacOS"
  | ".7z" => "Arch-Based"
  | ".deb" => "Debian"
  | _ => "Windows"

def linkName (file : String) : Except Fault String :=
  let root := (Path.stem file).toList
  match versionPattern.search false root with
  | some m => .ok (String.ofList (m.span.of root) ++ " " ++ systemOf (Path.ext file) ++ " Download")
  | none => .error .noField

def isDownload (file : String) : Bool := [".dmg", ".zip", ".7z", ".deb"].contains (Path.ext file)

def downloadLine (file : String) : Except Fault String := do
  return "<p><a href=\"./" ++ file ++ "\">" ++ (← linkName file) ++ "</a></p>\n"

def downloadsHead : String :=
  pageHead "More Downloads" "app_nav" ++ "<h1 class=\"bigger\">More Downloads</h1>\n"

def optionsPath : String := "./src/options.html"

def downloadsPath : String := "./src/secret/more.html"

def editorSite (production : Bool) : Site := ⟨"src", "auto-editor", production⟩

def writeDownloads : Session Unit := do
  Session.writeText downloadsPath downloadsHead
  let files := (← Session.listDir "binaries").filter isDownload
  let links ← Session.ofExcept (files.mapM downloadLine)
  Session.writeText downloadsPath (downloadsHead ++ String.join links ++ pageFoot)

def assemble (production : Bool) : Session Unit := do
  Session.writeText optionsPath optionsPage
  if ← Session.exists_ "binaries" then writeDownloads
  (editorSite production).make

def publish (target : String) : Session Unit := do
  let _ ← Session.run ["rsync", "-rtvzP", "binaries/", target]
  let _ ← Session.run
    ["rsync", "-rtvzP", "auto-editor/", "root@auto-editor.com:/var/www/auto-editor"]

def clear : Session Unit := do
  Session.write "Removing temporary files.\n"
  try Session.removeDir "./auto-editor" catch
    | .noFile => pure ()
    | e => throw e
  Session.removeFile optionsPath
  Session.removeFile downloadsPath

def build (production : Bool) (target : String) : Session Unit := do
  assemble production
  if production then publish target
  clear

end Jumpcut.Site
