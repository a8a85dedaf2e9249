import Jumpcut.Chunk
import Jumpcut.Json.Access
import Jumpcut.Json.Literal

namespace Jumpcut

structure WrittenChunk where
  (start stop : Json)
  speed : Float

namespace WrittenChunk

def part (j : Json) (k : Nat) : Except Fault Json :=
  match j with
  | .arr vs =>
    match vs[k]? with
    | some v => .ok v
    | none => .error .outOfRange
  | .str s =>
    match s.toList[k]? with
    | some c => .ok (.str c.toString)
    | none => .error .outOfRange
  | .obj _ => .error .noKey
  | _ => .error .wrongKind

def size : Json → Except Fault Nat
  | .arr vs => .ok vs.length
  | .str s => .ok s.length
  | .obj ms => .ok ms.length
  | _ => .error .wrongKind

def number (j : Json) : Except Fault Number :=
  match j.number? with
  | some x => .ok x
  | none => .error .wrongKind

def complain {α : Type} (message : String) : Except Fault α := .error (.complaint message)

def isWritable : Json → Bool
  | .int i => Number.isWritable i
  | _ => true

def unjoined (j start stop : Json) : Fault :=
  if isWritable start && isWritable stop then .complaint ("Chunk disjointed at " ++ j.literal)
  else .refused .digitLimit

def check (last : Option Number) (j : Json) : Except Fault WrittenChunk := do
  if (← size j) ≠ 3 then complain "Chunk must have a length of 3."
  let first ← match last with
    | none => do
      let first ← part j 0
      if (first.number?.map (·.eqv 0)) ≠ some true then
        complain "First chunk must start with 0"
      pure first
    | some _ => pure .null
  let stop ← part j 1
  let start ← match last with
    | none => pure first
    | some _ => part j 0
  let length ← Number.sub (← number stop) (← number start)
  if length.lt 1 then complain "Chunk duration must be at least 1"
  let speed ← number (← part j 2)
  if speed.le 0 || Number.lt 99999 speed then
    complain "Chunk speed range must be >0 and <=99999"
  match last with
  | some e =>
    if !(← number start).eqv e then throw (unjoined j start stop)
  | none => pure ()
  return ⟨start, stop, ← speed.toFloat⟩

def checkAll (last : Option Number) : List Json → Except Fault (List WrittenChunk)
  | [] => .ok []
  | j :: js => do
    let c ← check last j
    return c :: (← checkAll c.stop.number? js)

def validate : Json → Except Fault (List WrittenChunk)
  | .arr [] => complain "Chunks are empty!"
  | .arr vs => checkAll none vs
  | _ => complain "Chunks must be a list"

/-- A chunk for a timeline, which has whole ticks. The bounds of one that is cut out do not
matter. -/
def toChunk (w : WrittenChunk) : Except Fault Chunk := do
  let c : Chunk := ⟨← w.start.toInt, ← w.stop.toInt, .float w.speed⟩
  let isWhole : Json → Bool
    | .float _ => false
    | _ => true
  if c.isCut || (isWhole w.start && isWhole w.stop) then return c else .error .wrongKind

end WrittenChunk

end Jumpcut
