import Jumpcut.Fault
import Jumpcut.Text.Class

namespace Jumpcut.Text

def isFillSpace (c : Char) : Bool := ['\t', '\n', '\x0b', '\x0c', '\r', ' '].contains c

def isLetter (c : Char) : Bool := isWord c && !isDigit c

def isWordPunct (c : Char) : Bool := isWord c || ['!', '"', '\'', '&', '.', ',', '?'].contains c

def expandTabs (col : Nat) : List Char → List Char
  | [] => []
  | '\t' :: cs => List.replicate (8 - col % 8) ' ' ++ expandTabs (col + (8 - col % 8)) cs
  | c :: cs => c :: expandTabs (if c = '\n' ∨ c = '\r' then 0 else col + 1) cs

def plainSpaces (cs : List Char) : List Char :=
  (expandTabs 0 cs).map fun c => if isFillSpace c then ' ' else c

def dashAhead (cs : List Char) : Bool :=
  2 ≤ (cs.takeWhile (· = '-')).length && ((cs.dropWhile (· = '-')).head?.any isWord)

def letterPairAhead : List Char → Bool
  | a :: '-' :: b :: _ => isLetter a && isLetter b
  | a :: b :: _ => isLetter a && isLetter b
  | _ => false

def hyphenable : List Char → Bool
  | a :: '-' :: b :: _ => isLetter a && isLetter b
  | a :: b :: _ => isLetter a && isLetter b
  | _ => false

def pieceEnd? (before rest : List Char) : Option Nat :=
  match rest with
  | [] => some 0
  | c :: cs =>
    if c = '-' && hyphenable before && letterPairAhead cs then some 1
    else if isFillSpace c then some 0
    else if before.head?.any isWordPunct && dashAhead (c :: cs) then some 0
    else none

def pieceLength (before : List Char) : List Char → Nat
  | [] => 0
  | c :: cs =>
    match pieceEnd? (c :: before) cs with
    | some n => n + 1
    | none => pieceLength (c :: before) cs + 1

def firstPiece (before cs : List Char) : Nat :=
  match cs with
  | [] => 0
  | c :: _ =>
    if isFillSpace c then (cs.takeWhile isFillSpace).length
    else if before.head?.any isWordPunct && dashAhead cs then (cs.takeWhile (· = '-')).length
    else pieceLength before cs

def pieces : (fuel : Nat) → (before : List Char) → List Char → List (List Char)
  | 0, _, _ => []
  | _ + 1, _, [] => []
  | fuel + 1, before, c :: cs =>
    let n := max 1 (firstPiece before (c :: cs))
    let piece := (c :: cs).take n
    piece :: pieces fuel (piece.reverse ++ before) ((c :: cs).drop n)

def takeFitting (width : Int) : List (List Char) → List (List Char) × List (List Char)
  | [] => ([], [])
  | p :: ps =>
    if p.length ≤ width then
      let (line, rest) := takeFitting (width - p.length) ps
      (p :: line, rest)
    else ([], p :: ps)

def lastHyphen? (n : Nat) (p : List Char) : Option Nat :=
  (List.range (min n p.length)).reverse.find? fun i => p[i]? = some '-'

def cutPoint (room : Nat) (p : List Char) : Nat :=
  if room < p.length then
    match lastHyphen? room p with
    | some i => if 0 < i && (p.take i).any (· ≠ '-') then i + 1 else room
    | none => room
  else room

def cutLong (width : Int) (line rest : List (List Char)) : List (List Char) × List (List Char) :=
  match rest with
  | p :: ps =>
    if width < p.length then
      let used : Nat := (line.map List.length).foldr (· + ·) 0
      let room := if width < 1 then 1 else (width - used).toNat
      let n := cutPoint room p
      (line ++ [p.take n], p.drop n :: ps)
    else (line, rest)
  | [] => (line, [])

def isBlankPiece (p : List Char) : Bool := p.all isBlank

def dropBlankEnd (line : List (List Char)) : List (List Char) :=
  match line.getLast? with
  | some p => if isBlankPiece p then line.dropLast else line
  | none => line

def fillPieces (width : Int) (indent : List Char) : (fuel : Nat) → (first : Bool) →
    (front : List Char) → List (List Char) → List (List Char)
  | 0, _, _, _ => []
  | _ + 1, _, _, [] => []
  | fuel + 1, first, front, p :: ps =>
    let room := width - front.length
    let pieces := if !first && isBlankPiece p then ps else p :: ps
    let (line, rest) := takeFitting room pieces
    let (line, rest) := cutLong room line rest
    match dropBlankEnd line with
    | [] => fillPieces width indent fuel first front rest
    | line => (front ++ line.flatten) :: fillPieces width indent fuel false indent rest

def fill (width : Int) (front indent text : String) : Except Fault String :=
  if width ≤ 0 then .error .badValue
  else
    let cs := plainSpaces text.toList
    let ps := pieces cs.length [] cs
    let lines := fillPieces width indent.toList (2 * cs.length + ps.length + 1) true front.toList ps
    .ok (String.ofList (['\n'].intercalate lines))

end Jumpcut.Text
