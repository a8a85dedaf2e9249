import Jumpcut.Proofs.PremiereLaws
import Jumpcut.Proofs.StartLaws

namespace Jumpcut

open Outcome List Number Chunk Session

def Xml.childText? (x : Xml) (name : String) : Option String := (x.child? name).bind Xml.text

namespace Premiere

open Xml

def tracksOf (kind : String) (doc : Xml) : List (List Xml) :=
  (["sequence", "media", kind].foldlM child? doc).elim [] fun part =>
    (part.children.filter (·.tag == "track")).map children

structure LiesAt (p : Place) (clip : Xml) : Prop where
  start : clip.childText? "start" = some (toString p.start)
  stop : clip.childText? "end" = some (toString p.stop)
  source : clip.childText? "in" = some (toString p.source)
  sourceEnd : clip.childText? "out" = some (toString p.sourceEnd)

def linkRefs (clip : Xml) : List (Option String) :=
  (clip.children.filter (·.tag == "link")).map (·.childText? "linkclipref")

/-- The clip of the video at `j` is linked to the clips at `j` of all tracks: first to the one of
the video, then to those of the sound. -/
def LinksResolve (doc : Xml) : Prop :=
  ∀ video ∈ tracksOf "video" doc, ∀ (j : Nat) clip, video[j]? = some clip →
    ∃ targets, Forall₂ (fun track target => track[j]? = some target)
        (video :: tracksOf "audio" doc) targets ∧
      linkRefs clip = targets.map (·.attr? "id") ∧ ∀ x ∈ targets, x ∈ doc.named "clipitem"

def label (n : Nat) : String := "clipitem-" ++ toString n

theorem label_injective : Function.Injective label := fun _ _ h => label_inj.1 h

theorem flatMap_range_rows (k n : Nat) :
    (range k).flatMap (fun i => (range n).map (i * n + ·)) = range (k * n) := by
  induction k with
  | zero => simp
  | succ k ih => rw [range_succ, flatMap_append, ih, flatMap_singleton, Nat.succ_mul,
      range_add]

namespace Facts

variable {f : Facts} {cs : List Chunk} {doc x : Xml} {p : Place} {c : Chunk} {xs track : List Xml}
  {j : Nat} {make : Nat → Chunk → Place → Except Fault Xml} {total : Number}
  {video sound : List (List Xml)}

/-! ### Clips -/

theorem IsClip.liesAt {file : Xml} (h : f.IsClip file p x) : LiesAt p x := by
  obtain ⟨as, master, rest, rfl, -⟩ := h.form
  constructor <;> simp [childText?, Xml.child?, nodeWith, clipNodes, leaf]

theorem tag_of_speedNodes (h : speedNodes c = .ok xs) : ∀ x ∈ xs, x.tag = "filter" := by
  rw [speedNodes] at h
  split at h
  · cases h
    simp
  · simp only [bind_eq_ok, pure_eq_ok] at h
    obtain ⟨y, -, rfl⟩ := h
    simp [speedup, node]

theorem linkRef_link (f : Facts) (j i : Nat) :
    (f.link j i).childText? "linkclipref" = some (label (i * f.count + j + 1)) := by
  simp [link, childText?, Xml.child?, node, leaf, label]

theorem videoClip_links (h : f.videoClip j c p = .ok x) : x.attr? "id" = some (label (j + 1)) ∧
      linkRefs x = (range (f.tracks + 1)).map fun i => some (label (i * f.count + j + 1)) := by
  simp only [videoClip, bind_eq_ok, pure_eq_ok] at h
  obtain ⟨speed, hspeed, rfl⟩ := h
  have hnone : speed.filter (·.tag == "link") = [] := by
    rw [filter_eq_nil_iff]
    intro y hy
    simp [tag_of_speedNodes hspeed y hy]
  have hlinks : ((range (f.tracks + 1)).map (f.link j)).filter (·.tag == "link") =
      (range (f.tracks + 1)).map (f.link j) := by
    rw [filter_eq_self]
    simp [link, node]
  have hclip : (f.clipNodes "2" p ++ [f.videoFile (j == 0)]).filter (·.tag == "link") = [] := by
    simp [clipNodes, videoFile, leaf, nodeWith]
  refine ⟨rfl, ?_⟩
  rw [linkRefs, nodeWith, children_element, filter_append, filter_append, hclip, hnone,
    hlinks, nil_append, nil_append, map_map]
  exact map_congr_left fun i _ => f.linkRef_link j i

theorem soundClip_id {track : Nat} (h : f.soundClip track j c p = .ok x) :
    x.attr? "id" = some (label (f.soundNumber track j)) := by
  simp only [soundClip, bind_eq_ok, pure_eq_ok] at h
  obtain ⟨speed, -, rfl⟩ := h
  rfl

/-! ### Tracks -/

theorem clip_at (h : clips make total cs = .ok xs) : ∃ ps, places total cs = .ok ps ∧
      xs.length = cs.length ∧ ∀ (j : Nat) x, xs[j]? = some x →
        ∃ c p, cs[j]? = some c ∧ ps[j]? = some p ∧ make j c p = .ok x := by
  simp only [clips, bind_eq_ok, mapM_eq_ok] at h
  obtain ⟨ps, hps, h⟩ := h
  have hlength := length_places hps
  have hxs : xs.length = cs.length := by
    rw [← h.length_eq, length_zipIdx, length_zip, hlength, min_self]
  refine ⟨ps, hps, hxs, fun j x hx => ?_⟩
  obtain ⟨hj, rfl⟩ := List.getElem?_eq_some_iff.1 hx
  have hmake := h.get (by rw [h.length_eq]; exact hj) hj
  simp only [get_eq_getElem, getElem_zipIdx, getElem_zip, Nat.zero_add] at hmake
  exact ⟨_, _, getElem?_eq_getElem _, getElem?_eq_getElem _, hmake⟩

theorem clip_of_mem (h : clips make total cs = .ok xs) (hx : x ∈ xs) :
    ∃ j c p, make j c p = .ok x := by
  obtain ⟨ps, -, -, hclip⟩ := clip_at h
  obtain ⟨j, hj⟩ := mem_iff_getElem?.1 hx
  obtain ⟨c, p, -, -, hmake⟩ := hclip j x hj
  exact ⟨j, c, p, hmake⟩

theorem liesAt_of_clips (hmake : ∀ {j c p x}, make j c p = .ok x → LiesAt p x)
    (h : clips make total cs = .ok xs) :
    ∃ ps, places total cs = .ok ps ∧ Forall₂ LiesAt ps xs := by
  obtain ⟨ps, hps, hlength, hclip⟩ := clip_at h
  refine ⟨ps, hps, forall₂_of_getElem? (by rw [hlength, length_places hps]) ?_⟩
  intro j p x hp hx
  obtain ⟨c, p', -, hp', hx⟩ := hclip j x hx
  obtain rfl := Option.some_inj.1 (hp.symm.trans hp')
  exact hmake hx

structure Tracks (f : Facts) (cs : List Chunk) (video sound : List (List Xml)) : Prop where
  video : if f.src.videos.isEmpty then video = [] else
    ∃ xs, clips f.videoClip (.float 0.0) cs = .ok xs ∧ video = [xs]
  sound : Forall₂ (fun k xs => clips (f.soundClip k) (.int 0) cs = .ok xs)
    (range f.tracks) sound

theorem Tracks.clips_of_mem (h : f.Tracks cs video sound) (htrack : track ∈ video) :
    f.src.videos ≠ [] ∧ clips f.videoClip (.float 0.0) cs = .ok track := by
  have hvideo := h.video
  split at hvideo
  · rw [hvideo] at htrack
    cases htrack
  · next hempty =>
    obtain ⟨xs, hxs, rfl⟩ := hvideo
    obtain rfl := mem_singleton.1 htrack
    exact ⟨by simpa using hempty, hxs⟩

structure IsRow (x : Xml) : Prop where
  tag : x.tag = "track"
  named : x.named "clipitem" = x.children

theorem isRow_of (h : ∀ x ∈ xs, x.named "clipitem" = [x]) (as : List (String × String)) :
    IsRow (nodeWith "track" as xs) where
  tag := rfl
  named := by simp [nodeWith, Xml.named, namedAll_eq_self h]

theorem namedAll_rows (h : ∀ x ∈ xs, IsRow x) :
    namedAll "clipitem" xs = (xs.map children).flatten := by
  rw [namedAll_eq_flatMap, flatMap_congr fun x hx => (h x hx).named, flatMap_def]

theorem tracksOf_frame {video sound : List Xml} (hvideo : ∀ x ∈ video, IsRow x)
    (hsound : ∀ x ∈ sound, IsRow x) :
    tracksOf "video" (f.frame video sound) = video.map children ∧
      tracksOf "audio" (f.frame video sound) = sound.map children := by
  have hself {xs : List Xml} (h : ∀ x ∈ xs, IsRow x) : xs.filter (·.tag == "track") = xs := by
    rw [filter_eq_self]
    intro x hx
    simp [(h x hx).tag]
  constructor <;>
    simp [tracksOf, frame, videoPart, soundPart, Xml.child?, nodeWith, node, leaf, rateNode,
      hself hvideo, hself hsound]

theorem tracks_of_document (h : f.document cs = .ok doc) :
    f.Tracks cs (tracksOf "video" doc) (tracksOf "audio" doc) ∧ doc.named "clipitem" =
      (tracksOf "video" doc).flatten ++ (tracksOf "audio" doc).flatten := by
  obtain ⟨-, video, sound, hvideo, hsound, rfl⟩ := document_eq_ok.1 h
  rw [videoTracks_eq_ok] at hvideo
  have hvideoRow : ∀ x ∈ video, IsRow x := by
    split at hvideo
    · simp [← hvideo]
    · obtain ⟨xs, hxs, rfl⟩ := hvideo
      rw [forall_mem_singleton]
      refine isRow_of (fun x hx => ?_) []
      obtain ⟨j, c, p, hmake⟩ := clip_of_mem hxs hx
      exact (isClip_videoClip hmake).alone
  have hsoundRow : ∀ x ∈ sound, IsRow x := by
    intro x hx
    obtain ⟨k, -, hk⟩ := exists_of_mem_right hsound hx
    obtain ⟨xs, hxs, rfl⟩ := soundTrack_eq_ok.1 hk
    refine isRow_of (fun x hx => ?_) _
    obtain ⟨j, c, p, hmake⟩ := clip_of_mem hxs hx
    exact (isClip_soundClip hmake).alone
  obtain ⟨hvs, hss⟩ := tracksOf_frame (f := f) hvideoRow hsoundRow
  rw [named_frame, namedAll_rows hvideoRow, namedAll_rows hsoundRow, hvs, hss]
  refine ⟨⟨?_, ?_⟩, rfl⟩
  · split at hvideo
    · next hempty => rw [if_pos hempty, ← hvideo, map_nil]
    · next hempty =>
      obtain ⟨xs, hxs, rfl⟩ := hvideo
      rw [if_neg hempty]
      exact ⟨xs, hxs, rfl⟩
  · rw [forall₂_map_right_iff]
    refine hsound.imp fun k x hk => ?_
    obtain ⟨xs, hxs, rfl⟩ := soundTrack_eq_ok.1 hk
    exact hxs

/-! ### Numbers of clips -/

def numbers (f : Facts) (n : Nat) : List Nat :=
  (if f.src.videos.isEmpty then [] else (range n).map (· + 1)) ++
    (range f.tracks).flatMap fun k => (range n).map (f.soundNumber k)

theorem map_succ_range (n : Nat) : (range n).map (· + 1) = range' 1 n := by
  rw [range'_eq_map_range]
  exact map_congr_left fun j _ => Nat.add_comm j 1

theorem flatMap_soundNumber (h : ¬ f.isSound) :
    (range f.tracks).flatMap (fun k => (range f.count).map (f.soundNumber k)) =
      range' (f.count + 1) (f.tracks * f.count) := by
  have hnumber (k : Nat) : (range f.count).map (f.soundNumber k) =
      ((range f.count).map (k * f.count + ·)).map (f.count + 1 + ·) := by
    rw [map_map]
    refine map_congr_left fun j _ => ?_
    rw [soundNumber, if_neg h, Function.comp_apply]
    omega
  rw [flatMap_congr fun k _ => hnumber k, ← map_flatMap, flatMap_range_rows,
    range'_eq_map_range]

theorem nodup_numbers (f : Facts) : (f.numbers f.count).Nodup := by
  rw [numbers, map_succ_range]
  by_cases hsound : f.isSound
  · obtain ⟨hempty, htracks⟩ : f.src.videos.isEmpty ∧ f.tracks = 1 := by
      rwa [isSound, Bool.and_eq_true, beq_iff_eq] at hsound
    have hnumber : f.soundNumber 0 = (· + 1) := by
      funext j
      rw [soundNumber, if_pos hsound]
    rw [if_pos hempty, htracks, range_one, flatMap_singleton, nil_append, hnumber,
      map_succ_range]
    exact nodup_range'
  · rw [flatMap_soundNumber hsound]
    split
    · exact nodup_range'
    · rw [Nat.add_comm f.count 1, range'_append_1]
      exact nodup_range'

theorem map_id_of_clips (number : Nat → Nat)
    (hmake : ∀ j c p x, make j c p = .ok x → x.attr? "id" = some (label (number j)))
    (h : clips make total cs = .ok xs) :
    xs.map (·.attr? "id") = ((range cs.length).map number).map (some ∘ label) := by
  obtain ⟨ps, -, hlength, hclip⟩ := clip_at h
  rw [map_map]
  refine map_eq_of_forall₂ (forall₂_of_getElem? (by rw [length_range, hlength]) ?_)
  intro i j x hj hx
  obtain ⟨c, p, -, -, hx⟩ := hclip i x hx
  obtain ⟨-, rfl⟩ := List.getElem?_eq_some_iff.1 hj
  rw [getElem_range]
  exact hmake i c p x hx

theorem Tracks.map_id_video (h : f.Tracks cs video sound) :
    video.flatten.map (·.attr? "id") = (if f.src.videos.isEmpty then []
      else (range cs.length).map (· + 1)).map (some ∘ label) := by
  have hvideo := h.video
  split at hvideo
  · next hempty =>
    rw [hvideo, if_pos hempty]
    rfl
  · next hempty =>
    obtain ⟨xs, hxs, rfl⟩ := hvideo
    rw [if_neg hempty, flatten_singleton]
    exact map_id_of_clips (· + 1) (fun j c p x hx => (videoClip_links hx).1) hxs

theorem Tracks.map_id_sound (h : f.Tracks cs video sound) :
    sound.flatten.map (·.attr? "id") = ((range f.tracks).flatMap fun k =>
      (range cs.length).map (f.soundNumber k)).map (some ∘ label) := by
  have htracks : sound.map (map (·.attr? "id")) = (range f.tracks).map fun k =>
      ((range cs.length).map (f.soundNumber k)).map (some ∘ label) :=
    map_eq_of_forall₂ (h.sound.imp fun k xs hxs =>
      map_id_of_clips (f.soundNumber k) (fun j c p x hx => soundClip_id hx) hxs)
  rw [map_flatten, htracks, map_flatMap, flatMap_def]

theorem Tracks.nodup_id (h : f.Tracks cs video sound) (hcount : f.count = cs.length) :
    ((video.flatten ++ sound.flatten).map (·.attr? "id")).Nodup := by
  rw [map_append, h.map_id_video, h.map_id_sound, ← map_append, ← hcount]
  exact f.nodup_numbers.map ((Option.some_injective _).comp label_injective)

theorem clipAt_of_clips (h : clips make total cs = .ok xs) (hj : j < cs.length) :
    ∃ x c p, xs[j]? = some x ∧ make j c p = .ok x := by
  obtain ⟨ps, -, hlength, hclip⟩ := clip_at h
  obtain ⟨x, hx⟩ : ∃ x, xs[j]? = some x := ⟨xs[j], getElem?_eq_getElem _⟩
  obtain ⟨c, p, -, -, hmake⟩ := hclip j x hx
  exact ⟨x, c, p, hx, hmake⟩

theorem soundClips_at {ks : List Nat} (hj : j < cs.length)
    (h : Forall₂ (fun k xs => clips (f.soundClip k) (.int 0) cs = .ok xs) ks sound) :
    ∃ ys, Forall₂ (fun (track : List Xml) y => track[j]? = some y) sound ys ∧
      ys.map (·.attr? "id") = ks.map fun k => some (label (f.soundNumber k j)) := by
  induction h with
  | nil => exact ⟨[], .nil, rfl⟩
  | cons hxs _ ih =>
    obtain ⟨ys, hys, hids⟩ := ih
    obtain ⟨y, c, p, hy, hmake⟩ := clipAt_of_clips hxs hj
    exact ⟨y :: ys, .cons hy hys, by rw [map_cons, map_cons, hids, soundClip_id hmake]⟩

theorem Tracks.links (h : f.Tracks cs video sound) (htrack : track ∈ video) {clip : Xml}
    (hclip : track[j]? = some clip) :
    ∃ targets, Forall₂ (fun (track : List Xml) x => track[j]? = some x) (track :: sound)
        targets ∧
      linkRefs clip = targets.map (·.attr? "id") := by
  obtain ⟨hvideos, hxs⟩ := h.clips_of_mem htrack
  obtain ⟨ps, -, hlength, hmakes⟩ := clip_at hxs
  obtain ⟨c, p, -, -, hmake⟩ := hmakes j clip hclip
  obtain ⟨hid, hrefs⟩ := videoClip_links hmake
  have hj : j < cs.length := hlength ▸ (List.getElem?_eq_some_iff.1 hclip).1
  obtain ⟨ys, hys, hids⟩ := soundClips_at hj h.sound
  refine ⟨clip :: ys, .cons hclip hys, ?_⟩
  have hsound : ¬ f.isSound := by simp [isSound, hvideos]
  rw [hrefs, map_cons, hid, hids, range_succ_eq_map, map_cons, map_map,
    Nat.zero_mul, Nat.zero_add]
  congr 1
  refine map_congr_left fun k _ => ?_
  rw [Function.comp_apply, soundNumber, if_neg hsound, Nat.succ_mul]
  congr 2
  omega

end Facts

def ShowsChunk (c : Chunk) (clip : Xml) : Prop :=
  ∃ first last, (div (.int c.start) c.speed >>= trunc) = .ok first ∧
    (div (.int c.stop) c.speed >>= trunc) = .ok last ∧
    clip.childText? "in" = some (toString first) ∧ clip.childText? "out" = some (toString last)

theorem showsChunk_of_places {total : Number} {cs : List Chunk} {ps : List Place} {xs : List Xml}
    (hps : places total cs = .ok ps) (h : Forall₂ LiesAt ps xs) :
    Forall₂ ShowsChunk cs xs := by
  induction cs generalizing total ps xs with
  | nil =>
    cases hps
    cases h
    exact .nil
  | cons c cs ih =>
    simp only [places_cons, bind_eq_ok, pure_eq_ok, Prod.exists] at hps
    obtain ⟨p, after, hp, ps, hps, rfl⟩ := hps
    obtain ⟨x, xs, hlies, hrest, rfl⟩ := forall₂_cons_left_iff.1 h
    simp only [placeOf, bind_eq_ok, pure_eq_ok, Prod.mk.injEq] at hp
    obtain ⟨_, -, start, -, dur, -, s, hs, source, hsource, e, he, sourceEnd, hend, _, -, rfl, -⟩ :=
      hp
    refine .cons ⟨source, sourceEnd, ?_, ?_, hlies.source, hlies.sourceEnd⟩ (ih hps hrest)
    · exact bind_eq_ok.2 ⟨s, hs, hsource⟩
    · exact bind_eq_ok.2 ⟨e, he, hend⟩

namespace Facts

variable {f : Facts} {cs : List Chunk} {doc : Xml} {video sound : List (List Xml)}

theorem Tracks.exists_places (h : f.Tracks cs video sound) {track : List Xml}
    (htrack : track ∈ video ++ sound) : ∃ total ps,
      places total cs = .ok ps ∧ Forall₂ LiesAt ps track ∧
      (f.src.videos ≠ [] ∧ total = .float 0.0 ∨ f.src.audios ≠ [] ∧ total = .int 0) := by
  rcases mem_append.1 htrack with hmem | hmem
  · obtain ⟨hvideos, hxs⟩ := h.clips_of_mem hmem
    obtain ⟨ps, hps, hlies⟩ := liesAt_of_clips (fun hx => (isClip_videoClip hx).liesAt) hxs
    exact ⟨_, ps, hps, hlies, .inl ⟨hvideos, rfl⟩⟩
  · obtain ⟨k, hk, hxs⟩ := exists_of_mem_right h.sound hmem
    obtain ⟨ps, hps, hlies⟩ := liesAt_of_clips (fun hx => (isClip_soundClip hx).liesAt) hxs
    have hlt := mem_range.1 hk
    exact ⟨_, ps, hps, hlies, .inr ⟨ne_nil_of_length_pos (Nat.zero_lt_of_lt hlt), rfl⟩⟩

theorem Tracks.length_video (h : f.Tracks cs video sound) :
    video.length = min 1 f.src.videos.length := by
  have hvideo := h.video
  split at hvideo
  · next hempty =>
    rw [hvideo, isEmpty_iff.1 hempty]
    rfl
  · next hempty =>
    obtain ⟨xs, -, rfl⟩ := hvideo
    rw [List.isEmpty_iff, ← List.length_eq_zero_iff] at hempty
    rw [length_singleton]
    omega

theorem Tracks.length_sound (h : f.Tracks cs video sound) :
    sound.length = f.src.audios.length := by
  rw [← h.sound.length_eq, length_range, Facts.tracks]

theorem linksResolve_of_document (h : f.document cs = .ok doc) : LinksResolve doc := by
  obtain ⟨htracks, hnamed⟩ := tracks_of_document h
  intro video hvideo j clip hclip
  obtain ⟨targets, htargets, hrefs⟩ := htracks.links hvideo hclip
  refine ⟨targets, htargets, hrefs, fun x hx => ?_⟩
  obtain ⟨track, htrack, hget⟩ := exists_of_mem_right htargets hx
  rw [hnamed, ← flatten_append]
  refine mem_flatten_of_mem (mem_append.2 ?_) (mem_of_getElem? hget)
  rcases mem_cons.1 htrack with rfl | hsound
  · exact .inl hvideo
  · exact .inr hsound

end Facts

end Premiere

open Premiere

variable {tl : Timeline} {cs : List Chunk} {src : Source} {x : Extractor} {path : String}
  {w w₂ : Workspace} (hchunks : tl.chunks = some cs) (hsrc : tl.source "0" = .ok src)
  (hwrite : tl.writePremiere x path w = .ok () w₂)

namespace Timeline

section

include hchunks hsrc hwrite

theorem document_of_writePremiere : ∃ (f : Facts) (doc : Xml), f.src = src ∧
    f.count = (kept cs).length ∧ f.document (kept cs) = .ok doc ∧
    w₂.tree.read? (absolutePath path) = some doc.document.toUTF8 := by
  cases hlast : cs.getLast? with
  | none =>
    rw [writePremiere, hchunks] at hwrite
    simp only [hlast] at hwrite
    exact absurd hwrite run_throw_ne_ok
  | some last =>
    obtain ⟨urls, w₁, hurls⟩ : ∃ urls w₁, trackUrls src x w = .ok urls w₁ := by
      rw [writePremiere, hchunks] at hwrite
      simp only [hlast, hsrc, ofExcept_ok, pure_bind, run_bind_eq_ok] at hwrite
      obtain ⟨urls, w₁, hurls, -⟩ := hwrite
      exact ⟨urls, w₁, hurls⟩
    obtain ⟨doc, hdoc, hwritten⟩ := (writePremiere_eq_ok hchunks hlast hsrc hurls).1 hwrite
    exact ⟨_, doc, rfl, rfl, hdoc, read?_of_writeText hwritten⟩

/-- Every track shows the kept chunks one by one. No two clips have the same name, and the links of
a clip of the video name the clips of its chunk: first that of the video, then one in each track of
the sound. -/
theorem writePremiere_links_resolve :
    ∃ doc, w₂.tree.read? (absolutePath path) = some doc.document.toUTF8 ∧
      (tracksOf "video" doc).length = min 1 src.videos.length ∧
      (tracksOf "audio" doc).length = src.audios.length ∧
      (∀ track ∈ tracksOf "video" doc ++ tracksOf "audio" doc,
        Forall₂ ShowsChunk (kept cs) track) ∧
      ((doc.named "clipitem").map (·.attr? "id")).Nodup ∧ LinksResolve doc := by
  obtain ⟨f, doc, rfl, hcount, hdoc, hread⟩ := document_of_writePremiere hchunks hsrc hwrite
  obtain ⟨htracks, hnamed⟩ := Facts.tracks_of_document hdoc
  refine ⟨doc, hread, htracks.length_video, htracks.length_sound, ?_, ?_,
    Facts.linksResolve_of_document hdoc⟩
  · intro track htrack
    obtain ⟨total, ps, hps, hlies, -⟩ := htracks.exists_places htrack
    exact showsChunk_of_places hps hlies
  · rw [hnamed]
    exact htracks.nodup_id hcount

end

theorem writePremiere_links_resolve_two_streams :
    ∃ doc w₂, (concertOf true twoParts).writePremiere quietSetup.extractor "o.xml" stage =
        .ok () w₂ ∧
      w₂.tree.read? (absolutePath "o.xml") = some doc.document.toUTF8 ∧
      (tracksOf "video" doc).length = 1 ∧ (tracksOf "audio" doc).length = 2 ∧
      ((doc.named "clipitem").map (·.attr? "id")).Nodup ∧ LinksResolve doc := by
  obtain ⟨w₂, hwrite, -⟩ := exists_of_concertRun concertRun_twoParts
  have hchunks : (concertOf true twoParts).chunks = some twoParts := rfl
  obtain ⟨doc, hread, hvideo, hsound, -, hids, hlinks⟩ :=
    writePremiere_links_resolve hchunks rfl hwrite
  exact ⟨doc, w₂, hwrite, hread, hvideo, hsound, hids, hlinks⟩

end Timeline

/-! ### Times of clips -/

namespace Premiere

def ClipsAt (ps : List Place) (doc : Xml) : Prop :=
  ∀ track ∈ tracksOf "video" doc ++ tracksOf "audio" doc, Forall₂ LiesAt ps track

theorem Facts.clipsAt_of_document {f : Facts} {doc : Xml} {ps : List Place}
    (h : f.document cs = .ok doc)
    (hvideo : f.src.videos ≠ [] → ∀ rs, places (.float 0.0) cs = .ok rs → rs = ps)
    (hsound : f.src.audios ≠ [] → ∀ rs, places (.int 0) cs = .ok rs → rs = ps) :
    ClipsAt ps doc := by
  intro track htrack
  obtain ⟨total, rs, hrs, hlies, ⟨hsome, rfl⟩ | ⟨hsome, rfl⟩⟩ :=
    (tracks_of_document h).1.exists_places htrack
  · rwa [← hvideo hsome rs hrs]
  · rwa [← hsound hsome rs hrs]

end Premiere

namespace Timeline

section

include hchunks hsrc hwrite

/-- Each track has a clip for every kept chunk. The clips of all tracks lie at the same places, which
do not overlap. Where nothing is rounded each begins in the tick of its exact time; rounded times are
in order as long as they count ticks one by one. -/
theorem writePremiere_clips_apart (hcs : ∀ c ∈ kept cs, c.Lasts) :
    ∃ doc, w₂.tree.read? (absolutePath path) = some doc.document.toUTF8 ∧
      (tracksOf "video" doc).length = min 1 src.videos.length ∧
      (tracksOf "audio" doc).length = src.audios.length ∧
      ((src.videos ≠ [] → Exactly (.float 0.0) (kept cs)) →
        (src.audios ≠ [] → Exactly (.int 0) (kept cs)) →
        ∃ ps, ClipsAt ps doc ∧ (∀ p ∈ ps, p.Forward) ∧
          ps.IsChain (fun p r => p.stop ≤ r.start) ∧ ps.length = (kept cs).length ∧
          ∀ (j : Nat) p, ps[j]? = some p → p.start = ⌊beginning 0 cs j⌋) ∧
      ((∀ c ∈ kept cs, c.speed.Writable) →
        ∃ ps, ClipsAt ps doc ∧ (∀ p ∈ ps, p.Forward) ∧
          ps.IsChain (fun p r => p.stop < 2 ^ 53 → p.stop ≤ r.start) ∧
          ps.length = (kept cs).length) := by
  obtain ⟨f, doc, rfl, -, hdoc, hread⟩ := document_of_writePremiere hchunks hsrc hwrite
  obtain ⟨htracks, -⟩ := Facts.tracks_of_document hdoc
  refine ⟨doc, hread, htracks.length_video, htracks.length_sound, fun hvideo hsound => ?_,
    fun hspeeds => ?_⟩
  · refine ⟨placesAt 0 (kept cs), Facts.clipsAt_of_document hdoc ?_ ?_,
      forward_placesAt hcs 0, isChain_placesAt _ 0, length_placesAt 0 _, ?_⟩
    · intro hsome ps hps
      rw [places_of_exactly (hvideo hsome) toRat?_zero le_rfl hcs] at hps
      exact (Except.ok.inj hps).symm
    · intro hsome ps hps
      rw [places_of_exactly (hsound hsome) rfl le_rfl hcs] at hps
      exact (Except.ok.inj hps).symm
    · intro j p hp
      rw [getElem?_placesAt, Option.map_eq_some_iff] at hp
      obtain ⟨c, -, rfl⟩ := hp
      rfl
  · cases hps : places (.float 0.0) (kept cs) with
    | error e =>
      -- Then there are no tracks, and any places will do.
      refine ⟨placesAt 0 (kept cs), Facts.clipsAt_of_document hdoc ?_ ?_, forward_placesAt hcs 0,
        (isChain_placesAt _ 0).imp fun p r hstop _ => hstop, length_placesAt 0 _⟩
      · simp [hps]
      · simp [places_zero hspeeds, hps]
    | ok ps =>
      have hzero : ∀ t, Exact.ofFloat? 0.0 = some t → 0 ≤ t := fun t ht =>
        (Option.some_inj.1 (toRat?_zero.symm.trans ht)).le
      obtain ⟨hforward, hchain⟩ := places_float hcs hspeeds hzero hps
      refine ⟨ps, Facts.clipsAt_of_document hdoc ?_ ?_, hforward, hchain, length_places hps⟩
      · simp [hps]
      · simp [places_zero hspeeds, hps]

end

def paced : List Chunk :=
  [⟨0, 3, .float 2.0⟩, ⟨3, 5, 99999⟩, ⟨5, 8, .float 2.0⟩, ⟨8, 9, .float 0.5⟩]

theorem paced_lasts : ∀ c ∈ kept paced, c.Lasts ∧ c.speed.Writable := by
  have hpaces : (float 2.0).toRat? = some 2 ∧ (float 0.5).toRat? = some (1 / 2) := by
    decide +kernel
  intro c hc
  have hmem := mem_of_mem_filter hc
  simp only [paced, mem_cons, not_mem_nil, or_false] at hmem
  rcases hmem with rfl | rfl | rfl | rfl
  · exact ⟨⟨by decide, by decide, 2, hpaces.1, by norm_num⟩, .float 2.0, rfl⟩
  · exact ⟨⟨by decide, by decide, 99999, rfl, by norm_num⟩, .int 99999, rfl⟩
  · exact ⟨⟨by decide, by decide, 2, hpaces.1, by norm_num⟩, .float 2.0, rfl⟩
  · exact ⟨⟨by decide, by decide, 1 / 2, hpaces.2, by norm_num⟩, .float 0.5, rfl⟩

theorem paced_exactly {total : Number} (hwritable : total.Writable)
    (htotal : total.toRat? = some 0) : Exactly total (kept paced) := by
  have hbinary : isBinaryFrom 0 (kept paced) ∧ Exact.isBinary 0 := by decide +kernel
  exact exactly_of_isBinaryFrom hbinary.1 (fun c hc => (paced_lasts c hc).1.pace)
    (fun c hc => (paced_lasts c hc).2) hwritable htotal hbinary.2

theorem exists_write_paced :
    ∃ w₂, (concertOf true paced).writePremiere quietSetup.extractor "o.xml" stage = .ok () w₂ := by
  obtain ⟨w₁, hurls, hdir, hnew⟩ := trackUrls_concert
  have hchunks : (concertOf true paced).chunks = some paced := rfl
  have hlast : paced.getLast? = some ⟨8, 9, .float 0.5⟩ := rfl
  have hlasts := fun c hc => (paced_lasts c hc).1
  obtain ⟨doc, hdoc⟩ := Facts.exists_document
    (f := factsOf (concertOf true paced) (concert true) paced 9 concertUrls) (by decide +kernel)
    (fun c hc => exists_speedNodes (paced_lasts c hc).2)
    (places_of_exactly (paced_exactly ⟨.float 0.0, rfl⟩ toRat?_zero) toRat?_zero
      le_rfl hlasts)
    (places_of_exactly (paced_exactly ⟨.int 0, rfl⟩ rfl) rfl le_rfl hlasts)
  exact ⟨_, (writePremiere_eq_ok hchunks hlast rfl hurls).2
    ⟨doc, hdoc, writeText_ok doc.document hdir hnew⟩⟩

theorem writePremiere_clips_apart_paced :
    ∃ doc w₂ ps, (concertOf true paced).writePremiere quietSetup.extractor "o.xml" stage =
        .ok () w₂ ∧
      w₂.tree.read? (absolutePath "o.xml") = some doc.document.toUTF8 ∧
      (tracksOf "video" doc).length = 1 ∧ (tracksOf "audio" doc).length = 2 ∧
      ClipsAt ps doc ∧ ps.IsChain (fun p r => p.stop ≤ r.start) ∧
      ps.length = (kept paced).length ∧
      ∀ (j : Nat) p, ps[j]? = some p → p.start = ⌊beginning 0 paced j⌋ := by
  obtain ⟨w₂, hwrite⟩ := exists_write_paced
  have hchunks : (concertOf true paced).chunks = some paced := rfl
  obtain ⟨doc, hread, hvideo, hsound, hexact, -⟩ := writePremiere_clips_apart hchunks rfl hwrite
    fun c hc => (paced_lasts c hc).1
  obtain ⟨ps, hclips, -, hchain, hlength, hstart⟩ := hexact
    (fun _ => paced_exactly ⟨.float 0.0, rfl⟩ toRat?_zero)
    (fun _ => paced_exactly ⟨.int 0, rfl⟩ rfl)
  exact ⟨doc, w₂, ps, hwrite, hread, hvideo, hsound, hclips, hchain, hlength, hstart⟩

end Timeline

end Jumpcut
