import Jumpcut.Fault

namespace Jumpcut.Text

inductive ShellPlace : Type
  | gap | word
  | quote : Char → ShellPlace
  | escape : (within : Option Char) → ShellPlace
  deriving DecidableEq, Repr

def isShellBlank (c : Char) : Bool := c = ' ' || c = '\t' || c = '\r' || c = '\n'

def shellWordsFrom : ShellPlace → (done : List Char) → List Char → Except Fault (List String)
  | .gap, _, [] => .ok []
  | .word, done, [] => .ok [String.ofList done.reverse]
  | .quote _, _, [] => .error .badValue
  | .escape _, _, [] => .error .badValue
  | .gap, done, c :: cs =>
    if isShellBlank c then shellWordsFrom .gap done cs
    else if c = '\\' then shellWordsFrom (.escape none) [] cs
    else if c = '\'' || c = '"' then shellWordsFrom (.quote c) [] cs
    else shellWordsFrom .word [c] cs
  | .word, done, c :: cs =>
    if isShellBlank c then do
      return String.ofList done.reverse :: (← shellWordsFrom .gap [] cs)
    else if c = '\\' then shellWordsFrom (.escape none) done cs
    else if c = '\'' || c = '"' then shellWordsFrom (.quote c) done cs
    else shellWordsFrom .word (c :: done) cs
  | .quote q, done, c :: cs =>
    if c = q then shellWordsFrom .word done cs
    else if c = '\\' && q = '"' then shellWordsFrom (.escape (some q)) done cs
    else shellWordsFrom (.quote q) (c :: done) cs
  | .escape none, done, c :: cs => shellWordsFrom .word (c :: done) cs
  | .escape (some q), done, c :: cs =>
    if c = '\\' || c = q then shellWordsFrom (.quote q) (c :: done) cs
    else shellWordsFrom (.quote q) (c :: '\\' :: done) cs

def shellWords (s : String) : Except Fault (List String) := shellWordsFrom .gap [] s.toList

end Jumpcut.Text
