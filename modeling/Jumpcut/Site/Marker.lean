import Jumpcut.Fault
import Jumpcut.Text.Class
import Jumpcut.Text.Quoted
import Jumpcut.Text.Replace
import Jumpcut.Text.ShellWords

namespace Jumpcut.Site

inductive Flaw : Type
  | manyDollars : Flaw
  | notDollars : List String → Flaw
  | unknownComponent : String → Flaw
  | unknownVariable : String → Flaw
  | fault : Fault → Flaw
  | unending : Flaw

structure Marker where
  first : Char
  inner : List Char
  last : Char
  deriving DecidableEq, Repr

namespace Marker

def text (m : Marker) : List Char :=
  '\x7b' :: '\x7b' :: m.first :: (m.inner ++ [m.last, '\x7d', '\x7d'])

def front? : List Char → Option Marker
  | '\x7b' :: '\x7b' :: first :: cs =>
    let body := cs.takeWhile (· ≠ '\x7d')
    match body.reverse, cs.drop body.length with
    | last :: inner, '\x7d' :: '\x7d' :: _ =>
      if Text.isBlank first && Text.isBlank last && !inner.isEmpty then
        some ⟨first, inner.reverse, last⟩
      else none
    | _, _ => none
  | _ => none

def find? : List Char → Option Marker
  | [] => none
  | c :: cs =>
    match front? (c :: cs) with
    | some m => some m
    | none => find? cs

end Marker

/-- Puts in for the first marker, wherever it stands, what `value` makes of its words, and goes on
with the text so made until it holds no marker. -/
def fill (value : List String → Except Flaw (List Char)) :
    (budget : Nat) → List Char → Except Flaw (List Char)
  | budget, text =>
    match Marker.find? text, budget with
    | none, _ => .ok text
    | some _, 0 => .error .unending
    | some m, budget + 1 => do
      let words ← (Text.shellWords (String.ofList m.inner)).mapError .fault
      fill value budget (Text.replaceAll m.text (← value words) text)

end Jumpcut.Site
