import Jumpcut.Timeline.Basic

namespace Jumpcut

namespace Chunk

def padded (c : Chunk) (total : Int) : List Chunk :=
  (if c.start = 0 then [] else [⟨0, c.start, Setting.cutSpeed⟩]) ++ [c] ++
    (if c.stop = total then [] else [⟨c.stop, total, Setting.cutSpeed⟩])

def sequence (cs : List Chunk) : Except Fault (List (List Chunk)) :=
  match cs.getLast? with
  | none => .error .outOfRange
  | some last => .ok ((cs.filter (!·.isCut)).map (·.padded (last.stop - 1)))

end Chunk

namespace Timeline

def ofSequence (t : Timeline) (cs : List Chunk) : Except Fault Timeline := do
  let clips ← Clip.ofChunks "0" 0 cs
  let (v, a) := layersOf [clips] [← t.source "0"]
  return { t with background := "#000", v, a, chunks := some cs }

end Timeline

end Jumpcut
