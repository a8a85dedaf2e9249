import Jumpcut.Analysis.Setup
import Jumpcut.Timecode
import Jumpcut.Timeline.Basic

namespace Jumpcut

open Number

namespace Preview

def padRight (width : Nat) (s : String) : String := s ++ Console.spaces ((width : Int) - s.length)
def padLeft (width : Nat) (s : String) : String := Console.spaces ((width : Int) - s.length) ++ s

def fixedText (places : Nat) : Number → Except Fault String
  | .int i => do return Decimal.fixed places (← nearestFloat i)
  | .float x => .ok (Decimal.fixed places x)
  | _ => .error .wrongKind

def timeLine (title : String) (ticks : Number) (tb : Rat) (share : Option String) :
    Except Fault String := do
  let time ← timecode (← ticks.div (.frac tb)) "ass"
  let negative := time.startsWith "-"
  let places := if (int (← ticks.trunc)).eqv ticks then 0 else 2
  let amount := padRight 6 ("(" ++ (← fixedText places ticks) ++ ")")
  let last := match share with
    | some s => " " ++ padLeft 7 s
    | none => ""
  return " - " ++ padRight (if negative then 9 else 10) (title ++ ":") ++ " " ++
    padRight (if negative then 12 else 11) time ++ " " ++ amount ++ last ++ "\n"

def percent (part whole : Number) : Except Fault String := do
  match ← (← part.div whole).mul 100 with
  | .float x => return Decimal.plain.float (Decimal.roundTo 2 x) ++ "%"
  | x => return x.display ++ "%"

def smaller (x y : Number) : Number := if y.lt x then y else x
def larger (x y : Number) : Number := if x.lt y then y else x

def sorted (xs : List Number) : List Number := xs.mergeSort fun x y => !y.lt x

def median (xs : List Number) : Except Fault Number :=
  let n := xs.length
  let at_ (k : Nat) : Number := (sorted xs).getD k 0
  if n % 2 = 1 then .ok (at_ (n / 2))
  else do (← (at_ (n / 2 - 1)).add (at_ (n / 2))).div 2

def mean (xs : List Number) : Except Fault Number := do
  let xs ← xs.mapM toFloat
  match xs.mapM Exact.ofFloat? with
  | some qs => div (.float (← nearestFloat (qs.foldr (· + ·) 0))) (.int xs.length)
  | none => div (.float xs.sum) (.int xs.length)

def lengthLines (xs : List Number) (tb : Rat) : Session Unit := do
  match xs with
  | [] => return
  | x :: rest =>
    line "smallest" (.ok (rest.foldl smaller x))
    line "largest" (.ok (rest.foldl larger x))
    if rest.isEmpty then return
    line "median" (median xs)
    line "average" (mean xs)
where
  line (title : String) (x : Except Fault Number) : Session Unit := do
    Session.write (← Session.ofExcept do timeLine title (← x) tb none)

def ranges (clips : List AudioClip) : List (Int × Int) :=
  clips.map fun c => (c.offset, c.offset + c.dur)

def gaps : List (Int × Int) → List Int
  | r :: s :: rest => (s.1 - r.2) :: gaps (s :: rest)
  | _ => []

def lead : List (Int × Int) → List Int
  | r :: _ :: _ => if r.1 ≠ 0 then [r.2] else []
  | _ => []

def tail (tb : Rat) (total : Int) (rs : List (Int × Int)) : List Int :=
  match rs.getLast? with
  | some r => if r.2 < Exact.round (total * tb) then [total - r.2] else []
  | none => []

def cuts (clips : List AudioClip) (tb : Rat) (total : Int) : List Int :=
  let rs := ranges clips
  lead rs ++ gaps rs ++ tail tb total rs

def listText (xs : List Number) : String := "[" ++ ", ".intercalate (xs.map (·.display)) ++ "]"

end Preview

namespace Timeline

def firstSound (t : Timeline) : Except Fault (List AudioClip) :=
  match t.a with
  | l :: _ => .ok l
  | [] => .error .outOfRange

def cuts (t : Timeline) (total : Int) : Except Fault (List Int) := do
  return Preview.cuts (← t.firstSound) t.tb total

def inputLength (t : Timeline) (x : Extractor) (temp : String) (c : Console) : Session Int := do
  let lengths ← t.sources.mapM fun p => Setup.length ⟨p.2, x, true, t.tb, Bar.hidden, temp, c⟩
  return lengths.foldr (· + ·) 0

def preview (t : Timeline) (x : Extractor) (temp : String) (c : Console) : Session Unit := do
  c.overwrite ""
  let total ← t.inputLength x temp c
  let whole : Number := .int total
  let length ← Session.ofExcept t.length
  let diff ← Session.ofExcept (length.sub whole)
  Session.write "\nlength:\n"
  let line (title : String) (n : Number) (share : Except Fault String) : Session Unit := do
    Session.write (← Session.ofExcept do Preview.timeLine title n t.tb (some (← share)))
  line "input" whole (.ok "100.0%")
  line "output" length (Preview.percent length whole)
  line "diff" diff (Preview.percent diff whole)
  let clips ← Session.ofExcept do (← t.firstSound).mapM AudioClip.time
  c.note (Preview.listText clips)
  Session.write ("clips:\n - amount:    " ++ toString clips.length ++ "\n")
  Preview.lengthLines clips t.tb
  let cuts := (← Session.ofExcept (t.cuts total)).map int
  c.note (Preview.listText cuts)
  Session.write ("cuts:\n - amount:    " ++ toString clips.length ++ "\n")
  Preview.lengthLines cuts t.tb
  Session.write "\n"

end Timeline

end Jumpcut
