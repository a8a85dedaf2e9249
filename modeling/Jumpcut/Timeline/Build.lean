import Jumpcut.Analysis.Method
import Jumpcut.Options
import Jumpcut.Script.Eval
import Jumpcut.Timeline.Basic
import Jumpcut.Timeline.Speed

namespace Jumpcut

open Setting Script

def Options.plan (o : Options) : SpeedPlan :=
  ⟨o.margin, o.minClip, o.minCut, o.cutOut, o.addIn, o.markSilent, o.markLoud, o.speedRanges,
    o.silentSpeed, o.videoSpeed⟩

structure Inputs where
  sources : List (String × Source)
  order : List Nat

namespace Inputs

def none : Inputs := ⟨[], []⟩

def loadFrom (t : Transcoder) (c : Console) : (used : List (String × Nat)) → List String →
    Session Inputs
  | _, [] => return none
  | used, p :: ps => do
    match used.lookup p with
    | some i =>
      let rest ← loadFrom t c used ps
      return { rest with order := i :: rest.order }
    | Option.none =>
      let i := used.length
      let src ← Source.load p (toString i) t c
      let rest ← loadFrom t c (used ++ [(p, i)]) ps
      return ⟨(toString i, src) :: rest.sources, i :: rest.order⟩

def load (paths : List String) (t : Transcoder) (c : Console) : Session Inputs :=
  loadFrom t c [] paths

def ordered (i : Inputs) : List Source :=
  i.order.filterMap fun k => i.sources.lookup (toString k)

end Inputs

def editHost (s : Setup) : Host Workspace :=
  ⟨fun text w => { w with out := w.out ++ text }, some s.flags⟩

def scriptComplaint : Fault → Fault
  | .script e => .complaint e.message
  | e => e

def Setup.evaluate (s : Setup) (scope : Scope) (text : String) :
    Session (Flags × Scope) := s.console.guard do
  match describe text with
  | .error e => throw (scriptComplaint e)
  | .ok tree =>
    s.console.note ("edit: " ++ tree)
    let w ← get
    let scope := scope.set "timebase" (.num (.frac s.tb))
    match interpret (editHost s) text ⟨scope, w⟩ with
    | .error e m => do
      set m.host
      throw (scriptComplaint e)
    | .ok vs m => do
      set m.host
      match vs.getLast? with
      | some (.flags xs) => return (xs, m.scope)
      | _ => throw (.complaint "Expression in --edit must return a boolarr")

structure EditSetup where
  extractor : Extractor
  tb : Rat
  bar : Bar
  temp : String
  console : Console

def layInputs (e : EditSetup) (o : Options) (ticks : PlanTicks) (strict : Bool)
    (i : Inputs) : (scope : Scope) → (start : Rat) → List Nat →
    Session (List (List Chunk × List Clip))
  | _, _, [] => return []
  | scope, start, k :: ks => do
    match i.sources.lookup (toString k) with
    | none => throw .noKey
    | some src =>
      let s : Setup := ⟨src, e.extractor, strict, e.tb, e.bar, e.temp, e.console⟩
      let (flags, scope) ← s.evaluate scope o.edit
      let (chunks, clips, length) ← e.console.check do
        let chunks ← o.plan.chunks e.tb ticks flags
        let clips ← Clip.ofChunks (toString k) start chunks
        return (chunks, clips, Exact.round (← Chunk.total chunks))
      return (chunks, clips) :: (← layInputs e o ticks strict i scope (start + length) ks)

def illegalInLabel : List Char := ",.;()/\\[]\x7d\x7b'\"|#&<>^%$_@ ".toList

def labelProblem? (label : String) : Except Fault (Option String) := do
  let cs := label.toList
  if 55 < cs.length then return some "Label must not exceed 55 characters."
  else
    match illegalInLabel.find? cs.contains with
    | some c =>
      return some ("Label '" ++ label ++ "' contains illegal character: " ++ c.toString)
    | none =>
      match cs with
      | [] => .error .outOfRange
      | c :: _ =>
        if c.isDigit then return some ("Label '" ++ label ++ "' must not start with a digit")
        else if c = '-' then return some ("Label '" ++ label ++ "' must not start with a dash")
        else return none

def putSource (sources : List (String × Source)) (label : String) (s : Source) :
    List (String × Source) :=
  if sources.any (·.1 == label) then
    sources.map fun p => if p.1 == label then (label, s) else p
  else sources ++ [(label, s)]

def addSources (t : Transcoder) (c : Console) :
    List (String × Source) → List String → Session (List (String × Source))
  | sources, [] => return sources
  | sources, raw :: rest =>
    match parts ':' raw with
    | [label, path] => do
      match ← Session.ofExcept (labelProblem? label) with
      | some problem => c.fail problem
      | none =>
        if !(← Session.isFile path) then c.fail ("Path '" ++ path ++ "' is not a file")
        else
          let src ← Source.load path label t c
          addSources t c (putSource sources label src) rest
    | _ => c.fail "source label:path must have one :"

inductive Addition : Type
  | visual : VisualItem → Addition
  | audio : AudioClip → Addition

def Addition.parse (e : Extent) (text : String) : Except Fault Addition :=
  match parts ':' text with
  | [kind] => make kind ""
  | [kind, attrs] => make kind attrs
  | _ => .error (.complaint "Invalid object syntax")
where
  told {α : Type} : Except Fault α → Except Fault α
    | .error (.setting p) => .error (.complaint p.message)
    | r => r
  make (kind attrs : String) : Except Fault Addition :=
    match visual? kind with
    | some (schema, build) => do return .visual (build (← told (schema.read e true attrs)))
    | none =>
      if kind = "audio" then do
        return .audio (Given.toAudio (← told (soundSchema.read e true attrs)))
      else .error (.complaint ("Unknown timeline object: '" ++ kind ++ "'"))

def Timeline.withAdditions (t : Timeline) (as : List Addition) : Timeline :=
  { t with
    v := t.v ++ as.filterMap (fun
      | .visual x => some [x]
      | .audio _ => none)
    a := t.a ++ as.filterMap (fun
      | .visual _ => none
      | .audio x => some [x]) }

def Timeline.build (i : Inputs) (t : Transcoder) (x : Extractor) (o : Options) (rate : Int)
    (bar : Bar) (temp : String) (c : Console) : Session Timeline := do
  let first := (i.order.head?).bind fun k => i.sources.lookup (toString k)
  let (tb, resolution) := match first with
    | none => ((30 : Rat), ((1920 : Int), (1080 : Int)))
    | some s => (o.frameRate.getD s.fps, o.resolution.getD s.resolution)
  let ticks ← Session.ofExcept (o.plan.ticks tb)
  let laid ← layInputs ⟨x, tb, bar, temp, c⟩ o ticks (i.order.length < 2) i
    Scope.initial 0 i.order
  let (v, a) := layersOf (laid.map (·.2)) i.ordered
  let sources ← addSources t c i.sources o.source
  let timeline : Timeline := ⟨sources, tb, rate, resolution, o.background, v, a,
    some (Chunk.merge (laid.map (·.1)))⟩
  let stop ← Session.ofExcept timeline.stop
  let extent : Extent := ⟨some resolution.1, some resolution.2, some stop, some tb⟩
  let additions ← o.add.mapM fun text => c.check (Addition.parse extent text)
  return timeline.withAdditions additions

end Jumpcut
