import Jumpcut.Text.Class

namespace Jumpcut.Text

def isLineEnd (c : Char) : Bool :=
  ['\n', '\r', '\x0b', '\x0c', '\x1c', '\x1d', '\x1e', '\u0085', '\u2028', '\u2029'].contains c

def linesFrom (line : List Char) : List Char → List (List Char)
  | [] => if line.isEmpty then [] else [line]
  | '\r' :: '\n' :: cs => (line ++ ['\r', '\n']) :: linesFrom [] cs
  | c :: cs =>
    if isLineEnd c then (line ++ [c]) :: linesFrom [] cs else linesFrom (line ++ [c]) cs

def lines (cs : List Char) : List (List Char) := linesFrom [] cs

def indentLines (front text : String) : String :=
  String.join ((lines text.toList).map fun l =>
    if l.all isBlank then String.ofList l else front ++ String.ofList l)

def unifyLines : List Char → List Char
  | '\r' :: '\n' :: cs => '\n' :: unifyLines cs
  | '\r' :: cs => '\n' :: unifyLines cs
  | c :: cs => c :: unifyLines cs
  | [] => []

end Jumpcut.Text
