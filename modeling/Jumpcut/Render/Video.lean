import Jumpcut.Media.Encoder
import Jumpcut.Progress
import Jumpcut.Render.Fit
import Jumpcut.Options
import Jumpcut.Render.Search
import Jumpcut.Text.Quoted
import Jumpcut.Timeline.Basic

namespace Jumpcut

open Setting

def frameFormats : List String :=
  ["yuv420p", "yuvj420p", "rgb48be", "rgb48le", "rgb64be", "rgb64le", "rgb24", "bgr24", "argb",
   "rgba", "abgr", "bgra", "gray", "gray8", "gray16be", "gray16le", "rgb8", "bgr8", "pal8"]

inductive Wanted : Type
  | frame : (src : Raw) → (tick : Int) → Wanted
  | drawing : Drawing → Wanted

namespace VisualItem

def wantedAt (i : Int) : VisualItem → Except Fault (Option Wanted)
  | .clip c => do
    if i < c.start then return none
    let n ← (← playTime c.dur c.speed).ceil
    if c.start + n ≤ i then return none
    let passed ← (← Number.mul (.int (i - c.start)) c.speed).round
    return some (.frame c.src (c.offset + passed))
  | .drawing d => .ok (if d.start ≤ i ∧ i < d.start + d.dur then some (.drawing d) else none)

def literal (v : VisualItem) : String :=
  match visual? v.kind with
  | some (schema, _) =>
    let field (a : Attr) : String := a.name ++ "=" ++ Given.literal (v.fields.raw a.name)
    schema.title ++ "(" ++ ", ".intercalate (schema.attrs.map field) ++ ")"
  | none => ""

end VisualItem

structure Screen where
  (width height : Nat)
  back : Pixel
  format : String
  images : List (String × Still)

namespace Screen

def blank (s : Screen) : Shown :=
  ⟨Picture.plain s.width s.height s.back.red s.back.green s.back.blue, s.format⟩

def fit (s : Screen) (f : Shown) : Except Fault Shown := do
  if f.picture.width = s.width ∧ f.picture.height = s.height then return f
  else return ⟨← f.picture.padded s.width s.height s.back, s.format⟩

end Screen

structure Deck (α : Type) where
  reel : Option (Reel α)
  pace : Pace
  format : Option String

namespace Deck

def paceOf (noSeek : Bool) (v : VideoTrack) : Except Fault Pace :=
  match noSeek, v.averageRate with
  | false, some rate =>
    if rate = 0 then .error .divisionByZero
    else .ok ⟨(Exact.trunc (rate * 5)).toNat, Exact.trunc (v.timeBase.den / rate)⟩
  | _, _ => .ok ⟨4294967295, 0⟩

def ofMedium (noSeek : Bool) (tb : Rat) (m : Option Medium) :
    Except Fault (Deck Shown) := do
  match (m.map (·.video)).getD [] with
  | [] => return ⟨none, ⟨0, 0⟩, none⟩
  | v :: _ => return ⟨some (← Reel.ofTrack tb v), ← paceOf noSeek v, some v.pixelFormat⟩

end Deck

structure VideoWork (α : Type) where
  decks : List (String × Deck α)
  head : Head α

namespace SearchEvent

def perform (c : Console) : SearchEvent → Session Unit
  | .note m => c.note m
  | .sought stamp => Session.record ["(seek)", toString stamp]

end SearchEvent

namespace VideoWork

def setReel {α : Type} (w : VideoWork α) (label : String) (r : Reel α) : VideoWork α :=
  { w with decks := w.decks.map fun p =>
      if p.1 = label then (label, { p.2 with reel := some r }) else p }

def find {α : Type} (w : VideoWork α) (blank : α) (index : Int) (src : Raw) (want : Int) :
    Except Fault (VideoWork α × List SearchEvent) :=
  match src with
  | .number _ => .error .noKey
  | .text label =>
    match w.decks.lookup label with
    | none => .error .noKey
    | some ⟨none, _, _⟩ => .error .outOfRange
    | some ⟨some r, pace, _⟩ =>
      let found := Search.serve pace blank index want w.head r
      .ok ({ w.setReel label found.reel with head := found.head }, found.events)

def showFrame (w : VideoWork Shown) (s : Screen) (c : Console) (index : Int) (src : Raw)
    (want : Int) : Session (VideoWork Shown) := do
  let (w, events) ← Session.ofExcept (w.find s.blank index src want)
  events.forM (SearchEvent.perform c)
  let shown ← Session.ofExcept (s.fit w.head.shown)
  return { w with head := { w.head with shown } }

def showAll (s : Screen) (c : Console) (index : Int) :
    List Wanted → VideoWork Shown → Session (VideoWork Shown)
  | [], w => return w
  | .frame src want :: rest, w => do showAll s c index rest (← w.showFrame s c index src want)
  | .drawing d :: rest, w => do
    let picture ← Session.ofExcept (d.paint s.images w.head.shown.picture)
    showAll s c index rest { w with head := { w.head with shown := ⟨picture, "rgb24"⟩ } }

end VideoWork

namespace Timeline

def wantedAt (t : Timeline) (i : Int) : Except Fault (List Wanted) := do
  return (← t.v.flatten.mapM (·.wantedAt i)).filterMap id

def sendTicks (t : Timeline) (s : Screen) (c : Console) (bar : Bar) :
    (n : Nat) → (i : Int) → VideoWork Shown → Session (VideoWork Shown)
  | 0, _, w => return w
  | n + 1, i, w => do
    let w ← VideoWork.showAll s c i (← Session.ofExcept (t.wantedAt i)) w
    if w.head.shown.format ≠ s.format ∨ i % 3 = 0 then bar.tick (.int i)
    let shown : Shown := ⟨w.head.shown.picture, s.format⟩
    Session.sendFrame shown.picture.bytes
    sendTicks t s c bar n (i + 1) { w with head := { w.head with shown } }

def imagesOf (sources : List (String × Source)) (c : Console) :
    List VisualItem → List (String × Still) → Session (List (String × Still))
  | [], images => return images
  | .drawing d :: items, images => do
    match d.shape with
    | .text _ font _ _ _ =>
      if font ≠ "default" then c.fail ("Font '" ++ font ++ "' not found.")
      imagesOf sources c items images
    | .image src =>
      if (images.lookup src.display).isSome then imagesOf sources c items images
      else
        let file ← match src with
          | .text label =>
            match sources.lookup label with
            | some s => pure s
            | none => throw .noKey
          | .number _ => throw .noKey
        match (← Session.medium? file.path).bind (·.still) with
        | some still => imagesOf sources c items (images ++ [(src.display, still)])
        | none => throw .system
    | _ => imagesOf sources c items images
  | .clip _ :: items, images => imagesOf sources c items images

def appliesLater (o : Options) : Bool :=
  match Encoder.pixelFormats? o.videoCodec with
  | some fs => o.scale.eqv 1 && fs.all (!frameFormats.contains ·)
  | none => o.scale.eqv 1

def truthText (b : Bool) : String := if b then "True" else "False"

def encodeCommand (t : Timeline) (o : Options) (format out : String) : List String :=
  ["-hide_banner", "-y", "-f", "rawvideo", "-c:v", "rawvideo", "-pix_fmt", format, "-s",
    toString t.resolution.1 ++ "*" ++ toString t.resolution.2, "-framerate",
    (Number.frac t.tb).display, "-i", "-", "-pix_fmt", format] ++
  (if appliesLater o then ["-c:v", "mpeg4", "-qscale:v", "1"] else o.videoFlags) ++
  aspect ++ [out]
where
  aspect : List String :=
    match (t.sources.getLast?.bind (·.2.videos.head?)).bind (·.aspect) with
    | some a => ["-vf", "setsar=" ++ String.ofList (a.toList.map fun c => if c = ':' then '/' else c)]
    | none => []

def rescale (t : Transcoder) (scale : Number) (temp file : String) : Session String := do
  let out := Path.join temp "scale0.mp4"
  let filter := "scale=iw*" ++ scale.display ++ ":ih*" ++ scale.display
  let command := ["-i", file, "-vf", filter]
  let messages ← t.pipe (command ++ [out])
  if messages.contains "Error" || messages.contains "failed" then
    t.run (command ++ (if messages.contains "-allow_sw 1" then ["-allow_sw", "1"] else []) ++ [out])
  return out

def renderVideo (t : Timeline) (tr : Transcoder) (o : Options) (bar : Bar) (temp : String)
    (c : Console) : Session (String × Bool) := do
  if t.sources.isEmpty then throw .exhausted
  let images ← imagesOf t.sources c t.v.flatten []
  let decks ← t.sources.mapM fun p => do
    return (p.1, ← Session.ofExcept (Deck.ofMedium o.noSeek t.tb (← Session.medium? p.2.path)))
  c.note ("Tous: \x7b" ++ ", ".intercalate (decks.map fun d =>
    Text.quoted d.1 ++ ": " ++ toString d.2.pace.stamps) ++ "\x7d")
  c.note ("Clips: [" ++ ", ".intercalate (t.v.map fun l =>
    "[" ++ ", ".intercalate (l.map VisualItem.literal) ++ "]") ++ "]")
  let format := match (decks.lookup "0").bind (·.format) with
    | some f => if frameFormats.contains f then f else "yuv420p"
    | none => "yuv420p"
  c.note ("Target pix_fmt: " ++ format)
  c.note ("apply video quality settings now: " ++ truthText (!appliesLater o))
  let out := Path.join temp "spedup0.mp4"
  let command := t.encodeCommand o format out
  tr.feed command
  let stop ← Session.ofExcept t.stop
  let bar ← bar.start (.int stop) "Creating new video"
  let back ← Session.ofExcept (Pixel.named o.background)
  let screen : Screen := ⟨t.resolution.1.toNat, t.resolution.2.toNat, back, format, images⟩
  let work ← try t.sendTicks screen c bar stop.toNat 0 ⟨decks, .begin screen.blank⟩ catch
    | .brokenPipe => do
      Bar.finish
      tr.runChecked c command true none
      c.fail "FFmpeg Error!"
    | e => throw e
  Bar.finish
  c.note ("Total frames saved seeking: " ++ toString work.head.saved)
  if o.scale.eqv 1 then return (out, appliesLater o)
  else return (← rescale tr o.scale temp out, appliesLater o)

end Timeline

end Jumpcut
