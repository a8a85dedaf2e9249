import Jumpcut.CommandLine.Program
import Jumpcut.CommandLine.Pages

namespace Jumpcut.CommandLine

def files : Positional := { name := "input" }

def customTranscoder : ArgOption where
  names := ["--ffmpeg-location"]
  help := "Point to your custom ffmpeg file"

def ownTranscoder : ArgOption where
  names := ["--my-ffmpeg"]
  form := .flag
  help := "Use the ffmpeg on your PATH instead of the one packaged"

def customTimebase : ArgOption where
  names := ["--timebase", "-tb"]
  kind := .frameRate
  metavar := some "NUM"
  help := "Set custom timebase"

def infoEntries : List Entry :=
  [ .flag ["--json"] "Export info in JSON format",
    .flag ["--include-vfr", "--has-vfr"] "Display the number of Variable Frame Rate (VFR) frames",
    .option customTranscoder, .option ownTranscoder ]

def info : Program :=
  { title := some "info"
    positional := files
    entries := infoEntries
    defaults :=
      [ ("json", .flag false), ("include_vfr", .flag false), ("ffmpeg_location", .absent),
        ("my_ffmpeg", .flag false), ("help", .flag false), ("input", .many []) ]
    pages := infoPages }

def levelsEntries : List Entry :=
  [ .taking .text ["--edit"] "METHOD:[ATTRS?]"
      "Select the kind of detection to analyze with attributes",
    .option customTimebase,
    .option customTranscoder, .option ownTranscoder ]

def levels : Program :=
  { title := some "levels"
    positional := files
    entries := levelsEntries
    defaults :=
      [ ("input", .many []), ("edit", .text "audio"), ("timebase", .absent),
        ("ffmpeg_location", .absent), ("my_ffmpeg", .flag false), ("help", .flag false) ]
    pages := levelsPages }

def grepInput : Positional :=
  { name := "input"
    metavar := "pattern [file ...]" }

def grepEntries : List Entry :=
  [ .flag ["--no-filename"] "Never print filenames with output lines",
    .option
      { names := ["--max-count", "-m"]
        kind := .integer
        help := "Stop reading a file after NUM matching lines" },
    .flag ["--count", "-c"]
      "Suppress normal output; instead print count of matching lines for each file",
    .flag ["--ignore-case", "-i"] "Ignore case distinctions for the PATTERN",
    .flag ["--timecode"] "Print the match's timecode",
    .flag ["--time"] "Print when the match happens. (Ignore ending)",
    .option customTranscoder, .option ownTranscoder ]

def grep : Program :=
  { title := some "grep"
    positional := grepInput
    entries := grepEntries
    defaults :=
      [ ("no_filename", .flag false), ("max_count", .absent), ("count", .flag false),
        ("ignore_case", .flag false), ("timecode", .flag false), ("time", .flag false),
        ("ffmpeg_location", .absent), ("my_ffmpeg", .flag false), ("help", .flag false),
        ("input", .many []) ]
    pages := grepPages }

def subdumpEntries : List Entry :=
  [.option customTranscoder, .option ownTranscoder]

def subdump : Program :=
  { title := some "subdump"
    positional := files
    entries := subdumpEntries
    defaults :=
      [ ("ffmpeg_location", .absent), ("my_ffmpeg", .flag false), ("help", .flag false),
        ("input", .many []) ]
    pages := subdumpPages }

def descEntries : List Entry :=
  [.option customTranscoder]

def desc : Program :=
  { title := some "desc"
    positional := files
    entries := descEntries
    defaults :=
      [ ("ffmpeg_location", .absent), ("help", .flag false), ("input", .many []) ]
    pages := descPages }

def replEntries : List Entry :=
  [ .option customTimebase,
    .option customTranscoder, .option ownTranscoder,
    .taking .text ["--temp-dir"] "PATH" "Set where the temporary directory is located" ]

def repl : Program :=
  { title := none
    positional := files
    entries := replEntries
    defaults :=
      [ ("input", .many []), ("timebase", .absent), ("ffmpeg_location", .absent),
        ("my_ffmpeg", .flag false), ("temp_dir", .absent), ("help", .flag false) ] }

def testInput : Positional :=
  { name := "category"
    many := false
    choices := some ["unit", "cli", "sub", "api", "all"]
    metavar := "category [options]" }

def testEntries : List Entry :=
  [ .option
      { names := ["--only", "-n"]
        form := .many } ]

def test : Program :=
  { title := some "test"
    positional := testInput
    entries := testEntries
    defaults :=
      [ ("only", .many []), ("help", .flag false), ("category", .text "cli") ]
    pages := testPages }

def tools : List (String × Program) :=
  [ ("test", test), ("info", info), ("levels", levels), ("grep", grep), ("subdump", subdump),
    ("desc", desc), ("repl", repl) ]

end Jumpcut.CommandLine
