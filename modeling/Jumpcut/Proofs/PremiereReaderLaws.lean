import Jumpcut.Exchange.PremiereReader
import Jumpcut.Proofs.FormLaws
import Jumpcut.Proofs.PlaceLaws
import Jumpcut.Proofs.PremiereDocument
import Jumpcut.Proofs.WorkspaceLaws

namespace Jumpcut

open Outcome List FrameRate Session Xml Console

namespace Premiere

open Xml

def visit (t : Transcoder) (c : Console) (sources : Sources) (file : String × String) :
    Session Sources :=
  if sources.any (·.1 == file.1) then pure sources
  else do
    let path ← Session.ofExcept (Url.filePath file.2)
    let src ← Source.load path (toString sources.length) t c
    return sources ++ [(file.1, src)]

theorem visit_bind_congr {t : Transcoder} {c : Console} {sources : Sources} {β : Type}
    {file : String × String} {k k' : Sources → Session β}
    (h : ∀ s, s.any (·.1 == file.1) → (∀ id, sources.any (·.1 == id) → s.any (·.1 == id)) →
      k s = k' s) : visit t c sources file >>= k = visit t c sources file >>= k' := by
  rw [visit]
  split
  · next hknown => rw [pure_bind, pure_bind, h sources hknown fun _ => id]
  · simp only [bind_assoc, pure_bind]
    congr 1
    funext path
    congr 1
    funext src
    refine h _ (by simp) fun id hid => ?_
    rw [any_append, hid, Bool.true_or]

def visitAll (t : Transcoder) (c : Console) (files : List (String × String)) (sources : Sources) :
    Session Sources :=
  files.foldlM (visit t c) sources

theorem visitAll_again (t : Transcoder) (c : Console) (file : String × String)
    (files : List (String × String)) (sources : Sources) :
    (visit t c sources file >>= visitAll t c (file :: files)) =
      visitAll t c (file :: files) sources := by
  have hagain : (visit t c sources file >>= visitAll t c (file :: files)) =
      visit t c sources file >>= visitAll t c files := by
    refine visit_bind_congr fun s hs _ => ?_
    rw [visitAll, foldlM_cons, visit, if_pos hs, pure_bind]
    rfl
  rw [hagain, visitAll, foldlM_cons]
  rfl

namespace Loader

variable {l : Loader} {sources : Sources} {item : Fields} {file : Xml} {id url : String}

theorem source_of_known (hfile : item.element "file" = .ok file) (hid : file.attr? "id" = some id)
    (h : sources.any (·.1 == id)) : l.source sources item = pure (sources, id) := by
  rw [source, hfile, ofExcept_ok, pure_bind, hid]
  simp only [h, if_true]

theorem source_of_defined (hfile : item.element "file" = .ok file) (hid : file.attr? "id" = some id)
    (hurl : read [("pathurl", .leaf .text)] file = .ok [("pathurl", .text url)]) :
    l.source sources item =
      visit l.transcoder l.console sources (id, url) >>= fun s => pure (s, id) := by
  have htext : Fields.text [("pathurl", .text url)] "pathurl" = .ok url := rfl
  rw [source, hfile, ofExcept_ok, pure_bind, hid, visit]
  simp only [hurl, check_ok, pure_bind, htext, ofExcept_ok]
  split
  · rw [pure_bind]
  · simp

variable {α : Type} (make : (start dur : Int) → (src : String) → (offset : Int) → α)

def clipFields (file : Xml) (p : Place) : Fields :=
  [("start", .int p.start), ("end", .int p.stop), ("in", .int p.source), ("out", .int p.sourceEnd),
    ("file", .element file)]

def clipAt (id : String) (p : Place) : α := make p.start (p.stop - p.start) id p.source

theorem modify_last (layers : List (List α)) (x : List α) (f : List α → List α) :
    (layers ++ [x]).modify layers.length f = layers ++ [f x] := by
  induction layers with
  | nil => rfl
  | cons y layers ih => simpa using ih

theorem items_cons (layers : List (List α)) (done : List α) (p : Place) (rest : List Fields) :
    l.items make layers.length (sources, layers ++ [done]) (clipFields file p :: rest) =
      l.source sources (clipFields file p) >>= fun s =>
        l.items make layers.length (s.1, layers ++ [done ++ [clipAt make s.2 p]]) rest := by
  have hstart : (clipFields file p).int "start" = .ok p.start := rfl
  have hstop : (clipFields file p).int "end" = .ok p.stop := rfl
  have hoffset : (clipFields file p).int "in" = .ok p.source := rfl
  have hlast : layers.length < (layers ++ [done]).length := by simp
  rw [items, hstart, hstop, hoffset]
  simp only [ofExcept_ok, pure_bind, hlast, if_true, modify_last]
  rfl

theorem items_of_known (hid : file.attr? "id" = some id) (h : sources.any (·.1 == id))
    (layers : List (List α)) (done : List α) (ps : List Place) :
    l.items make layers.length (sources, layers ++ [done]) (ps.map (clipFields file)) =
      pure (sources, layers ++ [done ++ ps.map (clipAt make id)]) := by
  induction ps generalizing done with
  | nil =>
    rw [map_nil, map_nil, append_nil, items]
  | cons p ps ih =>
    rw [map_cons, items_cons, source_of_known rfl hid h, pure_bind, ih, append_assoc,
      map_cons, singleton_append]

def trackFields (first later : Xml) : List Place → Fields
  | [] => [("clipitem", .list [])]
  | p :: ps => [("clipitem", .list (clipFields first p :: ps.map (clipFields later)))]

/-- The first clip of a track names its file, or the file is there. The others only mention it. -/
structure Named (sources : Sources) (first later : Xml) (id url : String) : Prop where
  first_id : first.attr? "id" = some id
  later_id : later.attr? "id" = some id
  known : sources.any (·.1 == id) ∨
    read [("pathurl", .leaf .text)] first = .ok [("pathurl", .text url)]

variable {first later : Xml}

theorem Named.source (h : Named sources first later id url) (p : Place) :
    l.source sources (clipFields first p) =
      visit l.transcoder l.console sources (id, url) >>= fun s => pure (s, id) := by
  rcases h.known with hknown | hurl
  · rw [source_of_known rfl h.first_id hknown, visit, if_pos hknown, pure_bind]
  · exact source_of_defined rfl h.first_id hurl

section

variable (layers : List (List α)) (p : Place) (ps : List Place) (rest : List Fields)

theorem tracks_trackFields :
    l.tracks make layers.length (sources, layers) (trackFields first later (p :: ps) :: rest) =
      l.source sources (clipFields first p) >>= fun s =>
        l.items make layers.length (s.1, layers ++ [[clipAt make s.2 p]])
          (ps.map (clipFields later)) >>= fun s =>
            l.tracks make (layers.length + 1) s rest := by
  have hclips : (trackFields first later (p :: ps)).list "clipitem" =
      .ok (clipFields first p :: ps.map (clipFields later)) := rfl
  rw [tracks, hclips, ofExcept_ok, pure_bind, isEmpty_cons]
  simp only [Bool.false_eq_true, if_false]
  rw [items_cons, bind_assoc]
  rfl

theorem tracks_cons (h : Named sources first later id url) :
    l.tracks make layers.length (sources, layers) (trackFields first later (p :: ps) :: rest) =
      visit l.transcoder l.console sources (id, url) >>= fun s =>
        l.tracks make (layers.length + 1) (s, layers ++ [(p :: ps).map (clipAt make id)]) rest := by
  rw [tracks_trackFields, h.source, bind_assoc]
  refine visit_bind_congr fun s hs _ => ?_
  rw [pure_bind, items_of_known make h.later_id hs, pure_bind]
  rfl

theorem tracks_of_missing (hl : l.explain = false) (hid : first.attr? "id" = some id)
    (hnew : sources.any (·.1 == id) = false)
    (hread : read [("pathurl", .leaf .text)] first = .ok []) :
    l.tracks make layers.length (sources, layers) (trackFields first later (p :: ps) :: rest) =
      throw .noKey := by
  have helement : (clipFields first p).element "file" = .ok first := rfl
  have htext : ofExcept (Fields.text [] "pathurl") = throw .noKey := rfl
  have hsource : l.source sources (clipFields first p) = throw .noKey := by
    rw [source, helement, ofExcept_ok, pure_bind, hid]
    simp only [hnew, Bool.false_eq_true, if_false, hread, check_ok, pure_bind, hl,
      Bool.false_and, htext]
    rfl
  rw [tracks_trackFields, hsource]
  rfl

end

theorem Named.mono {s : Sources} (h : Named sources first later id url)
    (hs : ∀ id, sources.any (·.1 == id) → s.any (·.1 == id)) : Named s first later id url where
  first_id := h.first_id
  later_id := h.later_id
  known := h.known.imp (hs id) fun hurl => hurl

theorem tracks_all {first later : Nat → Xml} {file : Nat → String × String} {ks : List Nat}
    (h : ∀ k ∈ ks, Named sources (first k) (later k) (file k).1 (file k).2)
    (layers : List (List α)) (p : Place) (ps : List Place) :
    l.tracks make layers.length (sources, layers)
        (ks.map fun k => trackFields (first k) (later k) (p :: ps)) =
      visitAll l.transcoder l.console (ks.map file) sources >>= fun s =>
        pure (s, layers ++ ks.map fun k => (p :: ps).map (clipAt make (file k).1)) := by
  induction ks generalizing sources layers with
  | nil =>
    rw [map_nil, map_nil, map_nil, append_nil, tracks, visitAll,
      foldlM_nil, pure_bind]
  | cons k ks ih =>
    obtain ⟨hk, hks⟩ := forall_mem_cons.1 h
    rw [map_cons, tracks_cons make _ _ _ _ hk, map_cons (f := file), visitAll, foldlM_cons,
      bind_assoc]
    refine visit_bind_congr fun s _ hs => ?_
    have hlength : layers.length + 1 =
        (layers ++ [(p :: ps).map (clipAt make (file k).1)]).length := by
      simp
    rw [hlength, ih fun k hk => (hks k hk).mono hs]
    simp [visitAll]

end Loader

/-! ### What the forms find -/

def clipForm : List (String × Form) :=
  [("start", .leaf .int), ("end", .leaf .int), ("in", .leaf .int), ("out", .leaf .int),
    ("file", .keep)]

def trackForm : List (String × Form) := [("clipitem", .group true clipForm)]

namespace Facts

variable {f : Facts} {file first later : Xml} {id : String}

theorem Beside.lookup {x : Xml} (h : Beside x) : clipForm.lookup x.tag = none := by
  have hall : ∀ tag ∈ ["filter", "link", "sourcetrack", "labels", "outputchannelindex"],
      clipForm.lookup tag = none := by
    decide
  exact hall _ h.tag

theorem IsClip.read {p : Place} {x : Xml} (h : f.IsClip file p x) (hfile : Mentions file id)
    (hp : p.Writable) (d : Nat) :
    x.tag = "clipitem" ∧
      read clipForm (x.indented d) = .ok (Loader.clipFields (file.indented (d + 1)) p) := by
  obtain ⟨as, master, rest, rfl, hrest⟩ := h.form
  refine ⟨rfl, ?_⟩
  rw [read_eq_readAll, children_indented, nodeWith, children_element, clipNodes]
  simp only [map_cons, cons_append, nil_append]
  rw [readAll_other "masterclipid" (tag_indented ..) rfl,
    readAll_other "name" (tag_indented ..) rfl,
    readAll_leaf "start" (tag_indented ..) rfl (read_int hp.start ..) rfl,
    readAll_leaf "end" (tag_indented ..) rfl (read_int hp.stop ..) rfl,
    readAll_leaf "in" (tag_indented ..) rfl (read_int hp.source ..) rfl,
    readAll_leaf "out" (tag_indented ..) rfl (read_int hp.sourceEnd ..) rfl,
    readAll_keep "file" ((tag_indented ..).trans hfile.tag) rfl rfl,
    readAll_others]
  · rfl
  · rw [forall_mem_map]
    intro r hr
    rw [tag_indented]
    exact (hrest r hr).lookup

theorem IsTrack.read {ps : List Place} {x : Xml} (h : f.IsTrack first later ps x)
    (hfirst : Mentions first id) (hlater : Mentions later id) (hps : ∀ p ∈ ps, p.Writable)
    (d : Nat) :
    x.tag = "track" ∧ read trackForm (x.indented d) =
      .ok (Loader.trackFields (first.indented (d + 2)) (later.indented (d + 2)) ps) := by
  obtain @⟨as, p, ps, x, xs, head, tail⟩ := h
  refine ⟨rfl, ?_⟩
  obtain ⟨hp, hps⟩ := forall_mem_cons.1 hps
  rw [read_eq_readAll, children_indented, nodeWith, children_element, map_cons]
  have htail : List.Forall₂ (fun x g => x.tag = "clipitem" ∧ Xml.read clipForm x = .ok g)
      (xs.map (indented (d + 1))) (ps.map (Loader.clipFields (later.indented (d + 2)))) := by
    rw [forall₂_map_left_iff, forall₂_map_right_iff]
    refine ((forall₂_and_left ps xs).2 ⟨hps, tail⟩).imp (fun p x hx => ?_) |>.flip
    rw [flip, tag_indented]
    exact hx.2.read hlater hx.1 (d + 1)
  have hhead := head.read hfirst hp (d + 1)
  rw [← tag_indented (d + 1) x] at hhead
  exact readAll_push rfl (.cons hhead htail) rfl []

variable {gs : List Fields}

def TracksAt (d : Nat) (tracks : List Xml) (gs : List Fields) : Prop :=
  List.Forall₂ (fun x g => x.tag = "track" ∧ read trackForm (x.indented d) = .ok g) tracks gs

theorem readAll_tracks {ns : List String} {c : Xml} {tracks : List Xml} {g : Fields} {d : Nat}
    (hc : c.tag = "samplecharacteristics")
    (hread : read (ns.map fun n => (n, .leaf .int)) (c.indented (d + 1)) = .ok g)
    (h : TracksAt d tracks gs) :
    readAll (tracksForm ns) [("track", .list [])]
        ((node "format" [c]).indented d :: tracks.map (indented d)) =
      .ok [("track", .list gs), ("format", .group [("samplecharacteristics", .group g)])] := by
  have hformat : read
      [("samplecharacteristics", .group false (ns.map fun n => (n, .leaf .int)))]
      ((node "format" [c]).indented d) = .ok [("samplecharacteristics", .group g)] := by
    rw [read_eq_readAll, children_indented, node, children_element, map_cons,
      readAll_group "samplecharacteristics" ((tag_indented ..).trans hc) rfl hread rfl]
    rfl
  have htracks : List.Forall₂ (fun x g => x.tag = "track" ∧ read trackForm x = .ok g)
      (tracks.map (indented d)) gs := by
    rw [forall₂_map_left_iff]
    simpa only [TracksAt, tag_indented] using h
  rw [readAll_group "format" (tag_indented ..) rfl hformat rfl]
  exact readAll_push rfl htracks rfl []

variable {tracks : List Xml} {d : Nat}

theorem isWritable_iff : f.isWritable ↔ Number.isWritable f.duration ∧
    Number.isWritable f.rate.base ∧ Number.isWritable f.resolution.1 ∧
    Number.isWritable f.resolution.2 ∧ Number.isWritable f.sampleRate := by
  simp [isWritable]

theorem read_videoPart (hf : f.isWritable) (h : TracksAt (d + 1) tracks gs) :
    read (tracksForm ["width", "height"]) ((f.videoPart tracks).indented d) =
      .ok [("track", .list gs), ("format", .group [("samplecharacteristics",
        .group [("width", .int f.resolution.1), ("height", .int f.resolution.2)])])] := by
  obtain ⟨-, -, hwidth, hheight, -⟩ := isWritable_iff.1 hf
  rw [read_eq_readAll, children_indented, videoPart, node, children_element, map_cons]
  refine readAll_tracks rfl ?_ h
  rw [read_eq_readAll, children_indented, node, children_element]
  simp only [sizeNodes, map_cons, cons_append, nil_append]
  rw [readAll_other "rate" (tag_indented ..) rfl,
    readAll_other "fielddominance" (tag_indented ..) rfl,
    readAll_other "colordepth" (tag_indented ..) rfl,
    readAll_leaf "width" (tag_indented ..) rfl (read_int hwidth ..) rfl,
    readAll_leaf "height" (tag_indented ..) rfl (read_int hheight ..) rfl,
    readAll_other "pixelaspectratio" (tag_indented ..) rfl]
  rfl

theorem read_soundPart (hf : f.isWritable) (h : TracksAt (d + 1) tracks gs) :
    read (tracksForm ["samplerate"]) ((f.soundPart tracks).indented d) =
      .ok [("track", .list gs), ("format", .group [("samplecharacteristics",
        .group [("samplerate", .int f.sampleRate)])])] := by
  obtain ⟨-, -, -, -, hrate⟩ := isWritable_iff.1 hf
  rw [read_eq_readAll, children_indented, soundPart, node, children_element, cons_append,
    map_cons, readAll_other "numOutputChannels" (tag_indented ..) rfl]
  refine readAll_tracks rfl ?_ h
  rw [read_eq_readAll, children_indented, soundFormat, node, children_element]
  simp only [map_cons, map_nil]
  rw [readAll_other "depth" (tag_indented ..) rfl,
    readAll_leaf "samplerate" (tag_indented ..) rfl (read_int hrate ..) rfl]
  rfl

theorem sequence_of {root s : Xml} {rest : List Xml} (hroot : root.tag = "xmeml")
    (hchildren : root.children = s :: rest) (hs : s.tag = "sequence") :
    sequence root = read sequenceForm s := by
  have htag : ∀ {x : Xml} {tag : String}, x.tag = tag → checkTag x tag = .ok () := by
    intro x tag h
    rw [checkTag, if_pos h]
  rw [sequence, htag hroot, ok_bind, hchildren]
  simp only [htag hs, ok_bind]

def media (f : Facts) (video sound : List Xml) : Xml :=
  node "media" [f.videoPart video, f.soundPart sound]

def sequenceFields (f : Facts) (name : String) (media : Xml) : Fields :=
  [("name", .text name), ("duration", .int f.duration),
    ("rate", .group [("timebase", .fraction f.rate.base), ("ntsc", .truth f.rate.reduced)]),
    ("media", .element (media.indented 2))]

def mediaFields (f : Facts) (video sound : List Xml) : Fields :=
  [("video", .element ((f.videoPart video).indented 3)),
    ("audio", .element ((f.soundPart sound).indented 3))]

theorem sequence_frame (hf : f.isWritable) (video sound : List Xml) :
    ∃ name, sequence ((f.frame video sound).indented 0) =
      .ok (f.sequenceFields name (f.media video sound)) := by
  obtain ⟨hduration, hbase, -⟩ := isWritable_iff.1 hf
  have hrate : read [("timebase", .leaf .fraction), ("ntsc", .leaf .truth)]
      ((rateNode f.rate).indented 2) =
      .ok [("timebase", .fraction f.rate.base), ("ntsc", .truth f.rate.reduced)] := by
    rw [read_eq_readAll, children_indented, rateNode, node, children_element, flagText]
    simp only [map_cons, map_nil]
    rw [readAll_leaf "timebase" (tag_indented ..) rfl (read_fraction hbase ..) rfl,
      readAll_leaf "ntsc" (tag_indented ..) rfl (read_truth f.rate.reduced ..) rfl]
    rfl
  refine ⟨((leaf "name" f.title).indented 2).text.getD "None", ?_⟩
  rw [sequence_of (tag_indented ..) (children_indented ..) (tag_indented ..), read_eq_readAll,
    children_indented, node, children_element]
  simp only [map_cons, map_nil]
  rw [readAll_leaf "name" (tag_indented ..) rfl rfl rfl,
    readAll_leaf "duration" (tag_indented ..) rfl (read_int hduration ..) rfl,
    readAll_group "rate" (tag_indented ..) rfl hrate rfl,
    readAll_keep "media" (tag_indented ..) rfl rfl]
  rfl

theorem read_media (f : Facts) (video sound : List Xml) :
    read mediaForm ((f.media video sound).indented 2) = .ok (f.mediaFields video sound) := by
  rw [read_eq_readAll, children_indented, media, node, children_element]
  simp only [map_cons, map_nil]
  rw [readAll_keep "video" (tag_indented ..) rfl rfl,
    readAll_keep "audio" (tag_indented ..) rfl rfl]
  rfl

def shownAt (start dur : Int) (src : String) (offset : Int) : VisualItem :=
  .clip ⟨start, dur, .text src, offset, 1, 0⟩

def heardAt (start dur : Int) (src : String) (offset : Int) : AudioClip :=
  ⟨start, dur, .text src, offset, 1, .int 1, 0⟩

theorem readPremiere_frame {path : String} {t : Transcoder} {c : Console} {w : Workspace}
    {video sound : List Xml} {vgs ags : List Fields}
    (hload : load path c w = .ok ((f.frame video sound).indented 0) w) (hf : f.isWritable)
    (hv : TracksAt 4 video vgs) (ha : TracksAt 4 sound ags) :
    Timeline.readPremiere path t c w =
      (Loader.tracks ⟨t, c, true⟩ shownAt 0 ([], []) vgs >>= fun v =>
        Loader.tracks ⟨t, c, false⟩ heardAt 0 (v.1, []) ags >>= fun a =>
          pure ⟨a.1, timeBase f.rate.base f.rate.reduced, f.sampleRate, f.resolution,
            "#000", v.2, a.2, none⟩ : Session Timeline) w := by
  obtain ⟨name, hseq⟩ := sequence_frame hf video sound
  have hmedia := read_media f video sound
  have hvideo := read_videoPart hf hv
  have hsound := read_soundPart hf ha
  rw [Timeline.readPremiere, run_bind_of_ok hload]
  simp only [hseq, check_ok, pure_bind]
  have hrate : (do
      let rate ← (f.sequenceFields name (f.media video sound)).group "rate"
      return timeBase (← rate.fraction "timebase") (← rate.truth "ntsc") :
        Except Fault Rat) = .ok (timeBase f.rate.base f.rate.reduced) := rfl
  have helement : (f.sequenceFields name (f.media video sound)).element "media" =
      .ok ((f.media video sound).indented 2) := rfl
  have hvideo? : (f.mediaFields video sound).element? "video" =
      some ((f.videoPart video).indented 3) := rfl
  have hsound? : (f.mediaFields video sound).element? "audio" =
      some ((f.soundPart sound).indented 3) := rfl
  rw [hrate]
  simp only [helement, ok_bind, hmedia, check_ok, ofExcept_ok, pure_bind, hvideo?,
    hsound?, hvideo, hsound]
  rfl

end Facts

end Premiere

end Jumpcut
