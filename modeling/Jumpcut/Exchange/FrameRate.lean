import Jumpcut.Number.Exact

namespace Jumpcut

structure FrameRate where
  base : Int
  reduced : Bool
  deriving DecidableEq, Repr

namespace FrameRate

def isBroadcast (n : Rat) : Bool := n = 24 || n = 30 || n = 60

def ofTimeBase (tb : Rat) : FrameRate :=
  if tb = 24000 / 1001 then ⟨24, true⟩
  else if tb = 30000 / 1001 then ⟨30, true⟩
  else if tb = 60000 / 1001 then ⟨60, true⟩
  else
    let up := tb.ceil
    if !isBroadcast up && (up : Rat) * (999 / 1000) = tb then ⟨up, true⟩
    else ⟨Exact.trunc tb, false⟩

def timeBase (base : Rat) (reduced : Bool) : Rat :=
  if !reduced then base
  else if isBroadcast base then base * (1000 / 1001)
  else base * (999 / 1000)

def flagText (r : FrameRate) : String := if r.reduced then "TRUE" else "FALSE"

end FrameRate

end Jumpcut
