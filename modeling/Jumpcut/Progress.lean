import Jumpcut.Number.Power
import Jumpcut.Workspace.Console
import Jumpcut.Workspace.Programs

namespace Jumpcut

structure BarStyle where
  icon : String
  cells : List String
  (left right : String)

namespace BarStyle

def modern : BarStyle := ⟨"⏳", [" ", "▏", "▎", "▍", "▌", "▋", "▊", "▉", "█"], "|", "|"⟩
def classic : BarStyle := ⟨"⏳", ["░", "█"], "[", "]"⟩
def ascii : BarStyle := ⟨"& ", ["-", "#"], "[", "]"⟩

def named (s : String) : BarStyle :=
  if s = "classic" then classic else if s = "ascii" then ascii else modern

def repeated (s : String) (n : Int) : String := String.join (List.replicate n.toNat s)

def draw (s : BarStyle) (progress : Number) (width : Int) : Except Fault String := do
  let length ← progress.mul (.int width)
  let whole ← length.floor
  let rest ← length.mod 1
  let part ← (← rest.mul (.int ((s.cells.length : Int) - 1))).floor
  match s.cells[part.toNat]? with
  | none => .error .outOfRange
  | some cell =>
    let left := width - whole - 1
    return s.left ++ repeated (s.cells.getLast?.getD "") whole ++ (if left < 0 then "" else cell) ++
      repeated (s.cells.headD "") left ++ s.right

end BarStyle

structure Task where
  title : String
  total : Number
  begun : Float

inductive BarMode : Type
  | drawn | machine | hidden
  deriving DecidableEq, Repr

structure Bar where
  mode : BarMode
  style : BarStyle
  halfDay : Bool
  task : Option Task

namespace Bar

def ofKind (kind : String) : Session Bar := do
  let mode := if kind = "machine" then .machine else if kind = "none" then .hidden else .drawn
  let halfDay ←
    if (← get).platform = .darwin ∧ (kind = "default" ∨ kind = "classic") then
      try
        let format ← Session.outputOf
          ["defaults", "read", "com.apple.menuextra.clock", "DateFormat"]
        pure (format.toList.contains 'a')
      catch
        | .noFile => pure true
        | e => throw e
    else pure true
  return ⟨mode, BarStyle.named kind, halfDay, none⟩

def hidden : Bar := ⟨.hidden, .modern, true, none⟩

def twoDigits (n : Int) : String := Decimal.zeroPad 2 (toString n)

def timeOfDay (time : Number) (halfDay : Bool) : Except Fault String := do
  let minute := (← time.floor).fdiv 60
  let hours := (minute.fdiv 60).fmod 24
  let minutes := twoDigits (minute.fmod 60)
  if halfDay then
    let shown := if hours = 0 then 12 else if 12 < hours then hours - 12 else hours
    return twoDigits shown ++ ":" ++ minutes ++ (if 12 ≤ hours then " PM" else " AM")
  else return twoDigits hours ++ ":" ++ minutes

def share (index total : Number) : Except Fault Number := do
  if total.eqv 0 then return .float 0.0
  else
    let x ← index.div total
    let x := if Number.lt 0 x then x else 0
    return if x.lt 1 then x else 1

def front (n : Int) (s : String) : String :=
  String.ofList (s.toList.take (if n < 0 then n + s.length else n).toNat)

def oneDecimal : Number → Number
  | .float x => .float (Decimal.roundTo 1 x)
  | x => x

def line (b : Bar) (t : Task) (progress : Number) (eta : Number) (columns : Nat) :
    Except Fault String := do
  let eta ← timeOfDay eta b.halfDay
  let percent ← (oneDecimal (← progress.mul 100)).text
  let pad := Console.spaces (4 - (percent.length : Int))
  let bar ← b.style.draw progress (max 1 ((columns : Int) - (t.title.length + 32)))
  let s := "  " ++ b.style.icon ++ t.title ++ " " ++ bar ++ " " ++ pad ++ percent ++ "%  ETA " ++ eta
  let columns : Int := columns
  if columns - 2 < s.length then return front (columns - 2) s
  else return s ++ Console.spaces (columns - s.length - 4)

def tick (b : Bar) (index : Number) : Session Unit := do
  if b.mode = .hidden then return
  match b.task with
  | none => throw .noField
  | some t =>
    let progress ← Session.ofExcept (share index t.total)
    let rate ←
      if progress.eqv 0 then pure (.float 0.0)
      else do
        let elapsed := (← Session.now) - t.begun
        Session.ofExcept (Number.div (.float elapsed) progress)
    let eta ← Session.ofExcept (Number.add (.float t.begun) rate)
    if b.mode = .machine then
      let index := if t.total.lt index then t.total else index
      let fields ← Session.ofExcept do
        return [t.title, ← index.text, ← t.total.text, Decimal.plain.float t.begun,
          toString (← eta.trunc)]
      Session.write ("~".intercalate fields ++ "\r")
    else
      let s ← Session.ofExcept (b.line t progress eta (← get).columns)
      Session.write (s ++ "\r")

def start (b : Bar) (total : Number) (title : String) : Session Bar := do
  let b := { b with task := some ⟨title, total, ← Session.now⟩ }
  try
    b.tick 0
    return b
  catch
    | .unencodable => return { b with style := .ascii }
    | e => throw e

def finish : Session Unit := do
  Session.write (Console.spaces ((← get).columns - 2) ++ "\r")

end Bar

end Jumpcut
