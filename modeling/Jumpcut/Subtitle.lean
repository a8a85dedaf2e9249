import Jumpcut.Chunk
import Jumpcut.Text.Pattern
import Jumpcut.Timecode

namespace Jumpcut

structure Cue where
  (start stop : Int)
  (before middle after : String)
  deriving DecidableEq, Repr

inductive SubtitleFormat : Type
  | ass | webvtt | movText
  deriving DecidableEq, Repr

namespace SubtitleFormat

def named? : String → Option SubtitleFormat
  | "ass" => some .ass
  | "webvtt" => some .webvtt
  | "mov_text" => some .movText
  | _ => none

def timeFormat : SubtitleFormat → TimeFormat
  | .ass => .ass
  | .webvtt => .webvtt
  | .movText => .movText

def point : SubtitleFormat → Char
  | .movText => ','
  | _ => '.'

open Pattern in
def secondsPattern (f : SubtitleFormat) : Pattern := plus (oneOf [.digit, .single f.point])

open Pattern in
def timePattern (f : SubtitleFormat) : Pattern :=
  let minutes := seqs [plus digit, lit ':', f.secondsPattern]
  match f with
  | .webvtt => minutes
  | _ => seqs [plus digit, lit ':', minutes]

open Pattern in
def cuePattern (f : SubtitleFormat) : Pattern :=
  match f with
  | .ass => seqs [group 1 (star any), group 2 f.timePattern, group 3 (star any),
      group 4 f.timePattern, group 5 (star any)]
  | _ => seqs [group 1 .empty, group 2 f.timePattern, group 3 (word " --> "),
      group 4 f.timePattern, group 5 (seqs [lit '\n', star any])]

open Pattern in
def clockPattern (f : SubtitleFormat) : Pattern :=
  seqs [group 1 (plus digit), .many true 0 (some 1) (lit ':'), group 2 (plus digit), lit ':',
    group 3 f.secondsPattern]

def firstComma : List Char → List Char
  | [] => []
  | ',' :: cs => '.' :: cs
  | c :: cs => c :: firstComma cs

def wholeNumber (s : String) : Except Fault Int :=
  match Decimal.int? s with
  | some n => .ok n
  | none => .error .badValue

def tickOf (f : SubtitleFormat) (tb : Rat) (text : String) : Except Fault Int :=
  let cs := text.toList
  match f.clockPattern.matchFront false cs with
  | none => .error .broken
  | some m => do
    let hours ← wholeNumber (m.groupText 1 cs)
    let minutes ← wholeNumber (m.groupText 2 cs)
    match Decimal.float? (String.ofList (firstComma (m.groupText 3 cs).toList)) with
    | none => .error .badValue
    | some seconds => do
      let whole ← Number.add (.int (hours * 3600 + minutes * 60)) (.float seconds)
      (← whole.mul (.frac tb)).round

end SubtitleFormat

structure Subtitles where
  format : SubtitleFormat
  tb : Rat
  header : Option String
  cues : List Cue
  footer : Option String

namespace Cue

def ofMatch (f : SubtitleFormat) (tb : Rat) (text : List Char) (m : Found) : Except Fault Cue := do
  let start ← f.tickOf tb (m.groupText 2 text)
  let stop ← f.tickOf tb (m.groupText 4 text)
  return ⟨start, stop, m.groupText 1 text, m.groupText 3 text, m.groupText 5 text ++ "\n"⟩

def ofMatches (f : SubtitleFormat) (tb : Rat) (text : List Char) :
    List Found → List Cue × Option Fault
  | [] => ([], none)
  | m :: ms =>
    match ofMatch f tb text m with
    | .error e => ([], some e)
    | .ok c =>
      let (cs, e) := ofMatches f tb text ms
      (c :: cs, e)

def shrink (speed : Number) (n : Int) : Except Fault Int :=
  if speed.eqv 99999 then .ok n
  else do
    let factor ← Number.sub 1 (← Number.div 1 speed)
    (← Number.mul (.int n) factor).trunc

def retime (c : Chunk) (cue : Cue) : Except Fault Cue := do
  if c.start ≤ cue.stop ∧ cue.start < c.stop then
    let diff ← shrink c.speed (min c.stop cue.stop - max c.start cue.start)
    if c.start < cue.start then
      return { cue with start := cue.start - diff, stop := cue.stop - diff - diff }
    else return { cue with stop := cue.stop - diff }
  else if c.start ≤ cue.start then
    let diff ← shrink c.speed (c.stop - c.start)
    return { cue with start := cue.start - diff, stop := cue.stop - diff }
  else return cue

def retimeEach (c : Chunk) : List Cue → List Cue × Option Fault
  | [] => ([], none)
  | cue :: cues =>
    match retime c cue with
    | .error e => (cue :: cues, some e)
    | .ok cue' =>
      let (cues', e) := retimeEach c cues
      (cue' :: cues', e)

def checkSpeed (c : Chunk) : Except Fault Unit := do
  if !c.isCut then
    let _ ← Number.sub 1 (← Number.div 1 c.speed)

def retimeAll : List Chunk → List Cue → List Cue × Option Fault
  | [], cues => (cues, none)
  | c :: cs, cues =>
    match checkSpeed c with
    | .error e => (cues, some e)
    | .ok _ =>
      match retimeEach c cues with
      | (cues, none) => retimeAll cs cues
      | (cues, some e) => (cues, some e)

def isShown (cue : Cue) : Bool := cue.start != cue.stop

/-- Moves cues along with chunks, the last chunk first, and drops those of no length. -/
def edit (chunks : List Chunk) (cues : List Cue) : List Cue × Option Fault :=
  if chunks.isEmpty then (cues, some .unassigned)
  else
    match retimeAll chunks.reverse cues with
    | (cues, none) => (cues.filter isShown, none)
    | (cues, some e) => (cues, some e)

def text (f : SubtitleFormat) (tb : Rat) (cue : Cue) : Except Fault String := do
  if tb = 0 then .error .divisionByZero
  else
    return cue.before ++ (← f.timeFormat.text (.frac (cue.start / tb))) ++ cue.middle ++
      (← f.timeFormat.text (.frac (cue.stop / tb))) ++ cue.after

end Cue

namespace Subtitles

def parse (f : SubtitleFormat) (tb : Rat) (text : String) : Subtitles × Option Fault :=
  let cs := text.toList
  match f.cuePattern.findAll false cs with
  | [] => (⟨f, tb, some "", [], some ""⟩, none)
  | m :: ms =>
    let header := some (String.ofList (cs.take m.span.start))
    match Cue.ofMatches f tb cs (m :: ms) with
    | (cues, some e) => (⟨f, tb, header, cues, none⟩, some e)
    | (cues, none) =>
      let stop := ((m :: ms).getLast?.map (·.span.stop)).getD 0
      (⟨f, tb, header, cues, some (String.ofList (cs.drop stop))⟩, none)

def edit (chunks : List Chunk) (s : Subtitles) : Subtitles × Option Fault :=
  let (cues, e) := Cue.edit chunks s.cues
  ({ s with cues }, e)

def editFault (chunks : List Chunk) : Fault :=
  match chunks.getLast? with
  | none => .unassigned
  | some c =>
    match Cue.checkSpeed c with
    | .error e => e
    | .ok _ => .noField

def text (s : Subtitles) : Except Fault String := do
  match s.header with
  | none => .error .noField
  | some header =>
    let cues ← s.cues.mapM (Cue.text s.format s.tb)
    match s.footer with
    | none => .error .noField
    | some footer => return header ++ String.join cues ++ footer

end Subtitles

end Jumpcut
