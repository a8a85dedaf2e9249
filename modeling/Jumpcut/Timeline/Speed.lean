import Jumpcut.Chunk
import Jumpcut.Flags.Range

namespace Jumpcut

structure SpeedPlan where
  margin : Length × Length
  (minClip minCut : Length)
  (cutOut addIn markSilent markLoud : List (List String))
  ranges : List (Number × String × String)
  (silentSpeed loudSpeed : Number)

structure PlanTicks where
  (startMargin endMargin minClip minCut : Int)

namespace SpeedPlan

def ticks (p : SpeedPlan) (tb : Rat) : Except Fault PlanTicks := do
  let startMargin ← p.margin.1.toTicks tb
  let endMargin ← p.margin.2.toTicks tb
  let minClip ← p.minClip.toTicks tb
  let minCut ← p.minCut.toTicks tb
  return ⟨startMargin, endMargin, minClip, minCut⟩

/-- Flags after marks, minimum lengths and margins. A mark takes the truth of its speed, and
every speed but zero counts as true. -/
def shape (p : SpeedPlan) (tb : Rat) (t : PlanTicks) (flags : Flags) : Except Fault Flags := do
  let flags ← Range.setAll tb (!p.loudSpeed.eqv 0) p.markLoud flags
  let flags ← Range.setAll tb (!p.silentSpeed.eqv 0) p.markSilent flags
  let flags := Flags.cook t.minClip t.minCut flags
  let flags := Flags.margin t.startMargin t.endMargin flags
  return Flags.cook t.minClip t.minCut flags

end SpeedPlan

abbrev SpeedTable := List Number

namespace SpeedTable

def number (speeds : SpeedTable) (s : Number) : Nat × SpeedTable :=
  match speeds.findIdx? (·.eqv s) with
  | some i => (i, speeds)
  | none => (speeds.length, speeds ++ [s])

def speed (speeds : SpeedTable) (i : Int) : Except Fault Number :=
  match speeds[i.toNat]? with
  | some s => .ok s
  | none => .error .noKey

end SpeedTable

namespace SpeedPlan

def setRange (tb : Rat) (state : List Int × SpeedTable) (r : Number × String × String) :
    Except Fault (List Int × SpeedTable) := do
  let (i, speeds) := state.2.number r.1
  return (← Range.setOne tb (i : Int) state.1 [r.2.1, r.2.2], speeds)

/-- The number of each tick's speed: first of silence or sound, then of what is cut out or added
in, then of the ranges. -/
def numbers (p : SpeedPlan) (tb : Rat) (flags : Flags) : Except Fault (List Int × SpeedTable) := do
  let cells : List Int := flags.map fun b => if b then 1 else 0
  let speeds : SpeedTable := [p.silentSpeed, p.loudSpeed]
  let (cells, speeds) ←
    if p.cutOut.isEmpty then pure (cells, speeds)
    else do
      let (i, speeds) := speeds.number 99999
      pure (← Range.setAll tb (i : Int) p.cutOut cells, speeds)
  let cells ← Range.setAll tb (1 : Int) p.addIn cells
  p.ranges.foldlM (setRange tb) (cells, speeds)

def chunks (p : SpeedPlan) (tb : Rat) (t : PlanTicks) (flags : Flags) :
    Except Fault (List Chunk) := do
  let (cells, speeds) ← p.numbers tb (← p.shape tb t flags)
  Chunk.ofRuns speeds.speed cells

end SpeedPlan

end Jumpcut
