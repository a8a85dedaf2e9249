import Jumpcut.Text.Class
import Jumpcut.Text.Case

/-!
Patterns of text and how they match: alternatives are tried in order, repetitions as often as
possible or as seldom as possible, and the first way through wins.
-/
namespace Jumpcut

open Text

inductive CharItem : Type
  | single : Char → CharItem
  | range : Char → Char → CharItem
  | digit | notDigit | space | notSpace | word | notWord
  deriving DecidableEq, Repr

def CharItem.same (fold : Bool) (a b : Char) : Bool :=
  a = b || (fold && lowerChar a == lowerChar b)

def CharItem.has (fold : Bool) (c : Char) : CharItem → Bool
  | .single d => same fold c d
  | .range lo hi =>
    let inside (x : Char) : Bool := lo ≤ x && x ≤ hi
    inside c || (fold && ((lowerChar c).any inside || (upperChar c).any inside))
  | .digit => isDigit c
  | .notDigit => !isDigit c
  | .space => isBlank c
  | .notSpace => !isBlank c
  | .word => isWord c
  | .notWord => !isWord c

structure CharSet where
  negated : Bool
  items : List CharItem
  deriving DecidableEq, Repr

def CharSet.has (fold : Bool) (s : CharSet) (c : Char) : Bool :=
  s.items.any (·.has fold c) != s.negated

inductive Pattern : Type
  | empty : Pattern
  | one : CharSet → Pattern
  | front : (anyLine : Bool) → Pattern
  | back : (anyLine : Bool) → Pattern
  | seq : Pattern → Pattern → Pattern
  | alt : Pattern → Pattern → Pattern
  | many : (greedy : Bool) → (least : Nat) → (most : Option Nat) → Pattern → Pattern
  | group : Nat → Pattern → Pattern
  deriving Repr

structure Span where
  (start stop : Nat)
  deriving DecidableEq, Repr

structure Place where
  pos : Nat
  prev : Option Char
  rest : List Char
  groups : List (Nat × Span)

namespace Pattern

def lit (c : Char) : Pattern := .one ⟨false, [.single c]⟩
def any : Pattern := .one ⟨true, [.single '\n']⟩
def digit : Pattern := .one ⟨false, [.digit]⟩
def oneOf (items : List CharItem) : Pattern := .one ⟨false, items⟩
def star (p : Pattern) : Pattern := .many true 0 none p
def plus (p : Pattern) : Pattern := .many true 1 none p

def seqs : List Pattern → Pattern
  | [] => .empty
  | [p] => p
  | p :: ps => .seq p (seqs ps)

def word (s : String) : Pattern := seqs (s.toList.map lit)

/-- Repeats a step. A step that gets nowhere is the last one. -/
def again {α : Type} (step : Place → (Place → Option α) → Option α) (greedy : Bool) :
    (fuel : Nat) → (least : Nat) → (most : Option Nat) → Place → (Place → Option α) → Option α
  | 0, _, _, s, k => k s
  | fuel + 1, least + 1, most, s, k =>
    step s fun s' => again step greedy fuel least (most.map (· - 1)) s' k
  | fuel + 1, 0, most, s, k =>
    if most = some 0 then k s
    else
      let more (_ : Unit) : Option α := step s fun s' =>
        if s'.pos = s.pos then k s' else again step greedy fuel 0 (most.map (· - 1)) s' k
      if greedy then
        match more () with
        | some r => some r
        | none => k s
      else
        match k s with
        | some r => some r
        | none => more ()

def run {α : Type} (fold : Bool) : Pattern → Place → (Place → Option α) → Option α
  | .empty, s, k => k s
  | .one set, s, k =>
    match s.rest with
    | c :: rest => if set.has fold c then k { s with pos := s.pos + 1, prev := some c, rest } else none
    | [] => none
  | .front anyLine, s, k =>
    if s.prev = none || (anyLine && s.prev = some '\n') then k s else none
  | .back anyLine, s, k =>
    if s.rest.isEmpty || s.rest = ['\n'] || (anyLine && s.rest.head? = some '\n') then k s
    else none
  | .seq p q, s, k => run fold p s fun s' => run fold q s' k
  | .alt p q, s, k =>
    match run fold p s k with
    | some r => some r
    | none => run fold q s k
  | .many greedy least most p, s, k =>
    again (fun s k => run fold p s k) greedy (s.rest.length + least + 1) least most s k
  | .group n p, s, k =>
    run fold p s fun s' => k { s' with groups := (n, ⟨s.pos, s'.pos⟩) :: s'.groups }

end Pattern

structure Found where
  span : Span
  groups : List (Nat × Span)

def Span.of (s : Span) (text : List Char) : List Char := (text.drop s.start).take (s.stop - s.start)

namespace Found

def group? (m : Found) (n : Nat) : Option Span := if n = 0 then some m.span else m.groups.lookup n

def groupText (m : Found) (n : Nat) (text : List Char) : String :=
  match m.group? n with
  | some s => String.ofList (s.of text)
  | none => ""

end Found

namespace Pattern

def at? (fold : Bool) (p : Pattern) (s : Place) : Option Found :=
  p.run fold { s with groups := [] } fun s' => some ⟨⟨s.pos, s'.pos⟩, s'.groups⟩

def searchFrom (fold : Bool) (p : Pattern) (pos : Nat) (prev : Option Char) :
    List Char → Option Found
  | [] => p.at? fold ⟨pos, prev, [], []⟩
  | c :: cs =>
    match p.at? fold ⟨pos, prev, c :: cs, []⟩ with
    | some m => some m
    | none => searchFrom fold p (pos + 1) (some c) cs

def search (fold : Bool) (p : Pattern) (text : List Char) : Option Found :=
  searchFrom fold p 0 none text

def matchFront (fold : Bool) (p : Pattern) (text : List Char) : Option Found :=
  p.at? fold ⟨0, none, text, []⟩

def findFrom (fold : Bool) (p : Pattern) (text : List Char) : (fuel : Nat) → Nat → List Found
  | 0, _ => []
  | fuel + 1, pos =>
    let prev := if pos = 0 then none else text[pos - 1]?
    match searchFrom fold p pos prev (text.drop pos) with
    | none => []
    | some m =>
      m :: findFrom fold p text fuel (if m.span.stop = m.span.start then m.span.stop + 1 else m.span.stop)

def findAll (fold : Bool) (p : Pattern) (text : List Char) : List Found :=
  findFrom fold p text (text.length + 1) 0

def spliced (with_ : List Char) (pos : Nat) (text : List Char) : List Span → List Char
  | [] => text
  | s :: ss =>
    text.take (s.start - pos) ++ with_ ++ spliced with_ s.stop (text.drop (s.stop - pos)) ss

def replace (p : Pattern) (with_ text : String) : String :=
  let cs := text.toList
  String.ofList (spliced with_.toList 0 cs ((p.findAll false cs).map (·.span)))

end Pattern

end Jumpcut
