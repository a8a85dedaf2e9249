import Jumpcut.Chunk
import Jumpcut.Media.Source
import Jumpcut.Timeline.Object

namespace Jumpcut

structure Timeline where
  sources : List (String × Source)
  tb : Rat
  rate : Int
  resolution : Int × Int
  background : String
  v : List (List VisualItem)
  a : List (List AudioClip)
  chunks : Option (List Chunk)

def playTime (dur : Int) (speed : Number) : Except Fault Number := Number.div (.int dur) speed

def clipEnd (start dur : Int) (speed : Number) : Except Fault Int := do
  return max 1 (← (← Number.add (.int start) (← playTime dur speed)).round)

namespace VisualItem

def stop : VisualItem → Except Fault Int
  | .clip c => clipEnd c.start c.dur c.speed
  | .drawing d => .ok (d.start + d.dur)

def time : VisualItem → Except Fault Number
  | .clip c => playTime c.dur c.speed
  | .drawing d => .ok (.int d.dur)

end VisualItem

namespace AudioClip

def stop (c : AudioClip) : Except Fault Int := clipEnd c.start c.dur c.speed
def time (c : AudioClip) : Except Fault Number := playTime c.dur c.speed

end AudioClip

namespace Timeline

def layerEnd {α : Type} (stop : α → Except Fault Int) (n : Int) (layer : List α) :
    Except Fault Int :=
  match layer.getLast? with
  | some x => do return max n (← stop x)
  | none => .ok n

def stop (t : Timeline) : Except Fault Int := do
  t.a.foldlM (layerEnd AudioClip.stop) (← t.v.foldlM (layerEnd VisualItem.stop) 0)

def layerTime {α : Type} (time : α → Except Fault Number) (best : Number) (layer : List α) :
    Except Fault Number := do
  let sum ← layer.foldlM (fun s x => do s.add (← time x)) 0
  return if best.lt sum then sum else best

def length (t : Timeline) : Except Fault Number := do
  t.a.foldlM (layerTime AudioClip.time) (← t.v.foldlM (layerTime VisualItem.time) 0)

def source? (t : Timeline) (label : String) : Option Source := t.sources.lookup label

def source (t : Timeline) (label : String) : Except Fault Source :=
  match t.source? label with
  | some s => .ok s
  | none => .error .noKey

end Timeline

def Clip.toVideo (c : Clip) : VideoClip := ⟨c.start, c.dur, .text c.src, c.offset, c.speed, 0⟩

def Clip.toAudio (c : Clip) (stream : Nat) : AudioClip :=
  ⟨c.start, c.dur, .text c.src, c.offset, c.speed, .number 1, stream⟩

namespace Layers

def addVideo (v : List (List VisualItem)) (c : Clip) : List (List VisualItem) :=
  match v with
  | [] => [[.clip c.toVideo]]
  | first :: rest => (first ++ [.clip c.toVideo]) :: rest

def addAudio (streams : Nat) (a : List (List AudioClip)) (c : Clip) : List (List AudioClip) :=
  (List.range streams).foldl (fun a k => a.modify k (· ++ [c.toAudio k])) a

def addInput (l : List (List VisualItem) × List (List AudioClip)) (x : List Clip × Source) :
    List (List VisualItem) × List (List AudioClip) :=
  (if x.2.videos.isEmpty then l.1 else x.1.foldl addVideo l.1,
    x.1.foldl (addAudio x.2.audios.length) l.2)

end Layers

def layersOf (clips : List (List Clip)) (inputs : List Source) :
    List (List VisualItem) × List (List AudioClip) :=
  let streams := (inputs.map (·.audios.length)).foldl max 0
  (clips.zip inputs).foldl Layers.addInput ([], List.replicate streams [])

end Jumpcut
