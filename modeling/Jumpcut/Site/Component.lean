import Jumpcut.Decimal.Reader
import Jumpcut.Site.Marker
import Jumpcut.Text.Lines

/-!
Components: texts that pages share. A page names one in a marker, with arguments; in the component
itself a marker stands for one of them.
-/
namespace Jumpcut.Site

def dollars (words : List String) : Except Flaw (List Int) :=
  words.mapM fun w =>
    match Decimal.int? (String.ofList (w.toList.drop 1)) with
    | some n => .ok n
    | none => .error (.notDollars words)

def itemAt (xs : List String) (i : Int) : Option String :=
  let n := if i < 0 then i + xs.length else i
  if 0 ≤ n then xs[n.toNat]? else none

def argument (args words : List String) : Except Flaw (List Char) := do
  if 1 < words.length then throw .manyDollars
  match (← dollars words).head?.bind (itemAt args) with
  | some s => return s.toList
  | none => throw (.fault .outOfRange)

/-- Puts arguments into the text of a component. Each step takes closing braces away, and arguments
have none, so that their number is budget enough. -/
def fillArguments (args : List String) (text : List Char) : Except Flaw (List Char) :=
  fill (argument args) (text.count '\x7d') text

abbrev Components := List (String × String)

namespace Components

def insert (cs : Components) (name text : String) : Components :=
  if cs.any (·.1 == name) then cs.map fun c => if c.1 == name then (name, text) else c
  else cs ++ [(name, text)]

def value (cs : Components) (words : List String) : Except Flaw (List Char) :=
  match words with
  | [] => .error (.fault .outOfRange)
  | var :: _ =>
    if var.startsWith "comp." then
      let name := String.ofList (var.toList.drop 5)
      match cs.lookup name with
      | none => .error (.unknownComponent name)
      | some text => fillArguments words (Text.stripEnd text.toList)
    else .error (.unknownVariable var)

/-- How many markers of a line are filled at most. Components may have closing braces of their own,
so that this is a limit and not a count. -/
def budget (cs : Components) (line : String) : Nat :=
  (line.length + 1) * (cs.foldl (fun n c => n + c.2.length) 2)

def fillLine (cs : Components) (line : String) : Except Flaw String := do
  return String.ofList (← fill cs.value (cs.budget line) line.toList)

def fillLines (cs : Components) (lines : List String) : Except Flaw (List String) :=
  lines.mapM cs.fillLine

end Components

end Jumpcut.Site
