import Jumpcut.Json.Basic
import Jumpcut.Text.Pattern
import Jumpcut.Workspace.Basic

namespace Jumpcut

structure Package where
  (folder name description license keywords needs : String)
  classifiers : List String
  zipSafe : Bool
  more : List (String × Json)

namespace Package

def texts (xs : List String) : Json := .arr (xs.map .str)

def versionLine : Pattern :=
  let quote := Pattern.oneOf [.single '\'', .single '"']
  .seqs [.front true, .word "__version__ = ", quote,
    .group 1 (.star (.one ⟨true, [.single '\'', .single '"']⟩)), quote]

def versionIn (text : String) : Except Fault String :=
  match versionLine.search false text.toList with
  | some m => .ok (m.groupText 1 text.toList)
  | none => .error (.refused .versionString)

def marker : String := "__init__.py"

def partsBelow (dir : String) : List String :=
  ((dir.toList.drop (workDir.length + 1)).splitOn '/').map String.ofList

def arePackages (t : Tree) (dir : String) : List String → Bool
  | [] => true
  | part :: parts =>
    let inner := Path.join dir part
    !part.toList.contains '.' && t.isFile (Path.join inner marker) && arePackages t inner parts

def packages (t : Tree) : List String :=
  let found := (t.dirs.filter fun d => Tree.within workDir d && d != workDir).map partsBelow
  Tree.sorted ((found.filter (arePackages t workDir)).map (".".intercalate ·))

def statement (p : Package) : Session Json := do
  let readme ← Session.readText "README.md"
  let version ← Session.ofExcept (versionIn (← Session.readText (Path.join p.folder marker)))
  return .obj ([("name", .str p.name), ("version", .str version),
    ("description", .str p.description), ("long_description", .str readme),
    ("long_description_content_type", .str "text/markdown"), ("license", .str p.license),
    ("url", .str "https://auto-editor.com"),
    ("project_urls", .obj [
      ("Bug Tracker", .str "https://github.com/WyattBlue/auto-editor/issues"),
      ("Source Code", .str "https://github.com/WyattBlue/auto-editor")]),
    ("author", .str "WyattBlue"), ("author_email", .str "wyattblue@auto-editor.com"),
    ("keywords", .str p.keywords), ("packages", texts (packages (← get).tree)),
    ("zip_safe", .bool p.zipSafe), ("python_requires", .str p.needs),
    ("classifiers", texts p.classifiers)] ++ p.more)

def editor : Package where
  folder := "auto_editor"
  name := "auto-editor"
  description := "Auto-Editor: Effort free video editing!"
  license := "Unlicense"
  keywords := "video audio media editor editing processing nonlinear automatic " ++
    "silence-detect silence-removal silence-speedup motion-detection"
  needs := ">=3.9"
  classifiers :=
    [ "Topic :: Multimedia :: Sound/Audio"
    , "Topic :: Multimedia :: Video"
    , "License :: Public Domain"
    , "License :: OSI Approved :: The Unlicense (Unlicense)"
    , "Environment :: Console"
    , "Natural Language :: English"
    , "Intended Audience :: End Users/Desktop"
    , "Development Status :: 5 - Production/Stable"
    , "Programming Language :: Python"
    , "Programming Language :: Python :: 3"
    , "Programming Language :: Python :: 3 :: Only"
    , "Programming Language :: Python :: 3.9"
    , "Programming Language :: Python :: 3.10"
    , "Programming Language :: Python :: 3.11"
    , "Programming Language :: Python :: Implementation :: CPython"
    , "Programming Language :: Python :: Implementation :: PyPy" ]
  zipSafe := true
  more :=
    [ ("install_requires",
        texts ["numpy>=1.22.0", "pillow==9.3.0", "av==10.0.0", "ae-ffmpeg==1.1.1"])
    , ("entry_points", .obj [("console_scripts", texts
        [ "auto-editor=auto_editor.__main__:main"
        , "aedesc=auto_editor.subcommands.desc:main"
        , "aeinfo=auto_editor.subcommands.info:main"
        , "aesubdump=auto_editor.subcommands.subdump:main"
        , "aegrep=auto_editor.subcommands.grep:main"
        , "aelevels=auto_editor.subcommands.levels:main" ])]) ]

def transcoder : Package where
  folder := "ae_ffmpeg"
  name := "ae-ffmpeg"
  description := "Static FFmpeg binaries for Auto-Editor"
  license := "LGPLv3"
  keywords := "video audio media"
  needs := ">=3.8"
  classifiers :=
    [ "Topic :: Multimedia :: Sound/Audio"
    , "Topic :: Multimedia :: Video"
    , "License :: OSI Approved :: GNU Lesser General Public License v3 (LGPLv3)"
    , "Intended Audience :: Developers"
    , "Operating System :: MacOS :: MacOS X"
    , "Operating System :: Microsoft :: Windows"
    , "Development Status :: 5 - Production/Stable"
    , "Programming Language :: Python :: 3" ]
  zipSafe := false
  more :=
    [ ("package_data", .obj [("ae_ffmpeg", texts
        [ "LICENSE.txt", "Windows/ffmpeg.exe", "Windows/ffprobe.exe", "Windows/libopenh264.dll"
        , "Darwin-x86_64/ffmpeg", "Darwin-x86_64/ffprobe", "Darwin-arm64/ffmpeg"
        , "Darwin-arm64/ffprobe", "py.typed" ])])
    , ("include_package_data", .bool true) ]

end Package

end Jumpcut
