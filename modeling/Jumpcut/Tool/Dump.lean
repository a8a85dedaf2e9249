import Jumpcut.Tool.Basic

namespace Jumpcut.Tool

open CommandLine Session

def subtitleFiles (temp : String) (i : Nat) (src : Source) : List (SubtitleStream × Nat × String) :=
  src.subtitles.zipIdx.map fun (sub, s) =>
    (sub, s, Path.join temp (toString i ++ "s" ++ toString s ++ "." ++ sub.ext))

def dumpFile (t : Transcoder) (c : Console) (temp : String) (i : Nat) (path : String) :
    Session Unit := do
  let src ← Source.load path "0" t c
  let subs := subtitleFiles temp i src
  t.run (["-i", path] ++ subs.flatMap fun (_, s, file) => ["-map", "0:s:" ++ toString s, file])
  subs.forM fun (sub, s, file) => do
    let lang := sub.lang.display
    write ("file: " ++ path ++ " (" ++ toString s ++ ":" ++ lang ++ ":" ++ sub.ext ++ ")\n")
    write ((← readText file) ++ "\n")
    write "------\n"

def dump (vs : Values) : Session Unit := do
  let t ← transcoder vs
  let temp ← makeTemp
  let c : Console := { Console.plain with temp := some temp }
  (vs.texts "input").zipIdx.forM fun (path, i) => dumpFile t c temp i path
  c.cleanup

end Jumpcut.Tool
