import Jumpcut.Timeline.Basic
import Jumpcut.Url

namespace Jumpcut.FinalCut

structure Convergents where
  (p0 q0 p1 q1 : Int)

def convergents (bound : Int) (c : Convergents) (n : Int) (d : Nat) : Convergents :=
  if d = 0 then c
  else
    let a := n / (d : Int)
    let q := c.q0 + a * c.q1
    if q > bound then c
    else convergents bound ⟨c.p1, c.q1, c.p0 + a * c.p1, q⟩ d (n % (d : Int)).toNat
termination_by d
decreasing_by
  have h₁ := Int.emod_nonneg n (b := (d : Int)) (by omega)
  have h₂ := Int.emod_lt_of_pos n (b := (d : Int)) (by omega)
  omega

/-- The fraction nearest to `q` whose denominator is at most `bound`. -/
def limitDenominator (bound : Nat) (q : Rat) : Rat :=
  if q.den ≤ bound then q
  else
    let c := convergents bound ⟨0, 1, 1, 0⟩ q.num q.den
    let k := (bound - c.q0).fdiv c.q1
    let lower : Rat := (c.p0 + k * c.p1 : Int) / (c.q0 + k * c.q1 : Int)
    let upper : Rat := (c.p1 : Int) / (c.q1 : Int)
    let distance (a : Rat) : Rat := if a < q then q - a else a - q
    if distance upper ≤ distance lower then upper else lower

/-- The first time that is not before `q`, going on from `total` by thirtieths of a second. -/
def thirtieth (q total : Rat) : Rat :=
  if total < q then thirtieth q (total + 1 / 30) else total
termination_by ((q - total) * 30).ceil.toNat
decreasing_by
  have hstep : (q - (total + 1 / 30)) * 30 = (q - total) * 30 - 1 := by
    have hunit : (1 / 30 * 30 : Rat) = 1 := Rat.div_mul_cancel (by decide)
    rw [Rat.sub_eq_add_neg, Rat.neg_add, ← Rat.add_assoc, Rat.add_mul, Rat.neg_mul, hunit,
      ← Rat.sub_eq_add_neg, ← Rat.sub_eq_add_neg]
  have hpos : 0 < ((q - total) * 30).ceil :=
    Rat.lt_ceil_iff.2 (Rat.mul_pos ((Rat.lt_iff_sub_pos ..).1 ‹total < q›) (by decide))
  rw [hstep, Rat.ceil_sub_one]
  omega

/-- A length in seconds: thousandths of three seconds, a fraction, or the next thirtieth. -/
def seconds (ticks : Number) (tb : Rat) : Except Fault String := do
  if ticks.eqv 0 then return "0s"
  else
    let a ← Chunk.exactSpeed ticks
    if tb = 0 then .error .divisionByZero
    else
      let q := limitDenominator 1000000 (a / tb)
      if q.den < 3000 then
        let share ← Number.div 3000 (.int q.den)
        let factor ← share.trunc
        if Number.eqv (.int factor) share then
          text (q.num * factor) (q.den * factor)
        else
          let up := thirtieth q 0
          text up.num up.den
      else text q.num q.den
where
  text (n d : Int) : Except Fault String := do
    return (← Number.intText n) ++ "/" ++ (← Number.intText d) ++ "s"

def colorSpace (src : Source) : String :=
  match src.videos with
  | [] => "1-1-1 (Rec. 709)"
  | v :: _ =>
    if v.pixelFormat = "rgb24" then "sRGB IEC61966-2.1"
    else if v.colorSpace = some "smpte170m" then "6-1-6 (Rec. 601 NTSC)"
    else if v.colorSpace = some "bt470bg" then "5-1-6 (Rec. 601 PAL)"
    else if v.colorPrimaries = some "bt2020" then
      if v.colorTransfer = some "arib-std-b67" || v.colorTransfer = some "smpte2084" then
        "9-18-9 (Rec. 2020 HLG)"
      else "9-1-9 (Rec. 2020)"
    else "1-1-1 (Rec. 709)"

def indent (tabs : Nat) (lines : List String) : String :=
  String.join (lines.map fun l => String.ofList (List.replicate tabs '\t') ++ l ++ "\n")

structure AssetClip where
  (offset duration : String)
  start : Option String

def AssetClip.tag (name : String) (a : AssetClip) (close : String) : String :=
  let start := match a.start with
    | some s => " start=\"" ++ s ++ "\""
    | none => ""
  "<asset-clip name=\"" ++ name ++ "\" offset=\"" ++ a.offset ++ "\" ref=\"r2\" duration=\"" ++
    a.duration ++ "\"" ++ start ++ " tcFormat=\"NDF\"" ++ close ++ ">"

def place (tb : Rat) (done : Number) (c : Chunk) : Except Fault (AssetClip × Number) := do
  let length ← Number.div (.int (c.length + 1)) c.speed
  let duration ← seconds length tb
  if done.eqv 0 then return (⟨"0s", duration, none⟩, length)
  else
    let start ← seconds (← Number.div (.int c.start) c.speed) tb
    let offset ← seconds done tb
    return (⟨offset, duration, some start⟩, length)

def timeMap (tb : Rat) (total : Int) (speed : Number) : Except Fault (List String) := do
  let whole ← seconds (.int total) tb
  let played ← seconds (← Number.div (.int total) speed) tb
  return ["\t<timeMap>", "\t\t<timept time=\"0s\" value=\"0s\" interp=\"smooth2\"/>",
    "\t\t<timept time=\"" ++ played ++ "\" value=\"" ++ whole ++ "\" interp=\"smooth2\"/>",
    "\t</timeMap>", "</asset-clip>"]

def clip (name : String) (tb : Rat) (total : Int) (done : Number) (c : Chunk) :
    Except Fault (String × Number) := do
  let (a, length) ← place tb done c
  let lines ←
    if c.speed.eqv 1 then pure [a.tag name "/"]
    else do pure (a.tag name "" :: (← timeMap tb total c.speed))
  return (indent 6 lines, ← done.add length)

def clips (name : String) (tb : Rat) (total : Int) (done : Number) :
    List Chunk → Except Fault String
  | [] => .ok ""
  | c :: cs => do
    let (text, done) ← clip name tb total done c
    return text ++ (← clips name tb total done cs)

def posixPath (path : String) : String :=
  let ps := (path.toList.map fun c => if c = '\\' then '/' else c).splitOn '/'
  "/" ++ "/".intercalate ((ps.filter fun p => !p.isEmpty && p != ['.']).map String.ofList)

def url (platform : Platform) (path : String) : String :=
  match platform with
  | .windows => "file://localhost/" ++ posixPath path
  | _ => Url.ofPath path

def opening (t : Timeline) (src : Source) (total : Int) (url : String) : Except Fault String := do
  let frame ← seconds (.int 1) t.tb
  let tb ← Number.nearestFloat t.tb
  let isSound := src.videos.isEmpty && !src.audios.isEmpty
  let name := src.fileName
  return "<?xml version=\"1.0\" encoding=\"UTF-8\"?>\n<!DOCTYPE fcpxml>\n\n" ++
    "<fcpxml version=\"1.9\">\n\t<resources>\n" ++
    "\t\t<format id=\"r1\" name=\"FFVideoFormat" ++ toString t.resolution.2 ++ "p" ++
    Decimal.plain.float tb ++ "\" frameDuration=\"" ++ frame ++ "\" width=\"" ++
    toString t.resolution.1 ++ "\" height=\"" ++ toString t.resolution.2 ++ "\" colorSpace=\"" ++
    colorSpace src ++ "\"/>\n" ++
    "\t\t<asset id=\"r2\" name=\"" ++ name ++ "\" start=\"0s\" hasVideo=\"1\" format=\"r1\" " ++
    "hasAudio=\"1\" audioSources=\"1\" audioChannels=\"2\" duration=\"" ++
    (← seconds (.int total) t.tb) ++ "\">\n" ++
    "\t\t\t<media-rep kind=\"original-media\" src=\"" ++ url ++ "\"></media-rep>\n" ++
    "\t\t</asset>\n\t</resources>\n\t<library>\n" ++
    "\t\t<event name=\"Auto-Editor " ++ (if isSound then "Audio" else "Video") ++ " Group\">\n" ++
    "\t\t\t<project name=\"" ++ name ++ "\">\n" ++
    indent 4 ["<sequence format=\"r1\" tcStart=\"0s\" tcFormat=\"NDF\" audioLayout=\"stereo\" " ++
      "audioRate=\"48k\">", "\t<spine>"]

def closing : String :=
  "\t\t\t\t\t</spine>\n\t\t\t\t</sequence>\n\t\t\t</project>\n\t\t</event>\n\t</library>\n</fcpxml>\n"

def document (t : Timeline) (src : Source) (chunks : List Chunk) (total : Int) (url : String) :
    Except Fault String := do
  let head ← opening t src total url
  let body ← clips src.fileName t.tb total (.float 0.0) (chunks.filter (!·.isCut))
  return head ++ body ++ closing

end FinalCut

def Timeline.writeFinalCut (t : Timeline) (path : String) : Session Unit := do
  let src ← Session.ofExcept (t.source "0")
  match t.chunks with
  | none => throw (.refused .complexTimeline)
  | some cs =>
    match cs.getLast? with
    | none => throw .outOfRange
    | some last =>
      let url := FinalCut.url (← get).platform src.fullPath
      Session.writeText path (← Session.ofExcept (FinalCut.document t src cs last.stop url))

end Jumpcut
