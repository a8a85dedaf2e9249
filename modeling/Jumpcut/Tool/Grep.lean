import Jumpcut.Text.PatternSyntax
import Jumpcut.Tool.Basic

namespace Jumpcut

open Session

namespace Text

def tagPattern : Pattern := .seqs [.lit '<', .many false 0 none .any, .lit '>']

def withoutTags (s : String) : String := tagPattern.replace "" s

def feedLines (line : List Char) : List Char → List (List Char)
  | [] => if line.isEmpty then [] else [line]
  | '\n' :: cs => (line ++ ['\n']) :: feedLines [] cs
  | c :: cs => feedLines (line ++ [c]) cs

def before (mark : List Char) : List Char → List Char
  | [] => []
  | c :: cs => if mark.isPrefixOf (c :: cs) then [] else c :: before mark cs

end Text

namespace Tool

open CommandLine

def momentPattern : Pattern :=
  .seqs [.star .digit, .lit ':', .digit, .digit, .any, .star .digit]

def cueTimePattern : Pattern :=
  .seqs [momentPattern, .oneOf [.space], .word "-->", .oneOf [.space], momentPattern]

structure GrepStyle where
  pattern : String
  fold : Bool
  maxCount : Option Int
  (countOnly timecode time : Bool)

namespace GrepStyle

def ofValues (vs : Values) (pattern : String) : GrepStyle :=
  ⟨pattern, vs.flag "ignore_case", vs.int? "max_count", vs.flag "count", vs.flag "timecode",
    vs.flag "time"⟩

def shownTime (g : GrepStyle) (line : List Char) : String :=
  if g.time then Text.strip (String.ofList (Text.before "-->".toList line)) ++ " "
  else Text.strip (String.ofList line) ++ "; "

def isFull (g : GrepStyle) (count : Nat) : Bool := g.maxCount.any fun n => n ≤ (count : Int)

/-- What is printed for lines of subtitles and how many of them match. `time` is that of the last
cue seen, `count` the number of matches so far. -/
def scan (g : GrepStyle) (p : Pattern) (name : String) (time : String) (count : Nat) :
    List (List Char) → List String × Nat
  | [] => ([], count)
  | line :: lines =>
    if g.isFull count then ([], count)
    else if line.all Text.isBlank then g.scan p name time count lines
    else if (cueTimePattern.matchFront false line).isSome then
      g.scan p name (g.shownTime line) count lines
    else
      let clean := Text.withoutTags (String.ofList line)
      if (p.search g.fold clean.toList).isNone then g.scan p name time count lines
      else
        let (shown, n) := g.scan p name time (count + 1) lines
        let front := if g.timecode || g.time then time else ""
        (if g.countOnly then (shown, n)
          else ((name ++ front ++ Text.strip clean ++ "\n") :: shown, n))

def report (g : GrepStyle) (p : Pattern) (name subtitles : String) : String :=
  let (shown, n) := g.scan p name "" 0 ((Text.feedLines [] subtitles.toList).drop 1)
  String.join shown ++ (if g.countOnly then name ++ toString n ++ "\n" else "")

end GrepStyle

def grepFile (g : GrepStyle) (named : Bool) (t : Transcoder) (c : Console) (temp path : String) :
    Session Unit := do
  match Pattern.parse false g.pattern with
  | .error e => c.fail (e.message g.pattern)
  | .ok w =>
    let out := Path.join temp "media.vtt"
    t.run ["-i", path, out]
    let name := if named then Path.stem (Path.base path) ++ ":" else ""
    write (g.report w.pattern name (← readText out))

def grepPath (search : String → Session Unit) (c : Console) (path : String) : Session Unit := do
  if ← isDir path then
    let names ← listDir path
    (names.filter fun n => !n.startsWith ".").forM fun n => search (Path.join path n)
  else if ← isFile path then search path
  else c.noFile path

def grep (vs : Values) : Session Unit := do
  let t ← transcoder vs
  let temp ← makeTemp
  let c : Console := { Console.plain with temp := some temp }
  match vs.texts "input" with
  | pattern :: first :: rest =>
    let many ← if rest.isEmpty then isDir first else pure true
    let g := GrepStyle.ofValues vs pattern
    let named := many && !vs.flag "no_filename"
    (first :: rest).forM (grepPath (grepFile g named t c temp) c)
    c.cleanup
  | _ => throw .outOfRange

end Tool

end Jumpcut
