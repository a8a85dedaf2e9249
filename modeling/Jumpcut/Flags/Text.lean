import Jumpcut.Flags.Basic

namespace Jumpcut.Flags

def script (xs : Flags) : String :=
  "(boolarr" ++ String.join (xs.map fun b => if b then " 1" else " 0") ++ ")\n"

def fill (done line : String) : List String → String
  | [] => done ++ line
  | w :: ws =>
    if 74 < line.length + w.length ∧ 1 < line.length then
      fill (done ++ String.ofList (line.toList.reverse.dropWhile (· = ' ')).reverse ++ "\n")
        (" " ++ w ++ (if ws.isEmpty then "" else " ")) ws
    else fill done (line ++ w ++ (if ws.isEmpty then "" else " ")) ws

def words (xs : Flags) : String :=
  let word (b : Bool) : String := if b then " True" else "False"
  let shown :=
    if 1000 < xs.length then
      (xs.take 3).map word ++ ["..."] ++ (xs.drop (xs.length - 3)).map word
    else xs.map word
  "[" ++ String.ofList ((fill "" " " shown).toList.drop 1) ++ "]"

end Jumpcut.Flags
