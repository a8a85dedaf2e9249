import Jumpcut.Proofs.PremiereReaderLaws
import Jumpcut.Proofs.SpeedLaws

namespace Jumpcut

open Outcome List Number Chunk Session Exact

namespace Premiere

open Xml

namespace Facts

variable {f : Facts}

/-! ### Files -/

def fileOf (f : Facts) (k : Nat) : String × String :=
  ("file-" ++ toString (k + 1), f.urls.getD k "")

def files (f : Facts) : List (String × String) := (range (max 1 f.tracks)).map f.fileOf

structure Located (f : Facts) : Prop where
  count : f.urls.length = max 1 f.tracks
  paths : ∀ u ∈ f.urls, ∃ path, u = Url.ofPath path

theorem Located.textual (h : f.Located) (hname : isText f.src.fileName) : f.Textual where
  name := hname
  urls := by
    intro u hu
    obtain ⟨path, rfl⟩ := h.paths u hu
    exact isText_ofPath path

theorem Located.read_file (h : f.Located) {k : Nat} (hk : k < max 1 f.tracks)
    {as : List (String × String)} {rest : List Xml} (hrest : ∀ x ∈ rest, x.tag ≠ "pathurl")
    (d : Nat) :
    Xml.read [("pathurl", .leaf .text)] ((nodeWith "file" as (f.fileNodes k ++ rest)).indented d) =
      .ok [("pathurl", .text (f.fileOf k).2)] := by
  have htext : ((leaf "pathurl" (f.urls.getD k "")).indented (d + 1)).text =
      some (f.fileOf k).2 := by
    rw [text_indented_leaf, if_neg]
    · rfl
    · rw [← h.count] at hk
      obtain ⟨path, hpath⟩ := h.paths _ (getElem_mem hk)
      rw [getD_eq_getElem _ _ hk, hpath, Url.ofPath]
      simp
  rw [read_eq_readAll, children_indented, nodeWith, children_element, fileNodes]
  simp only [map_cons, cons_append, nil_append]
  rw [readAll_other "name" (tag_indented ..) rfl,
    readAll_leaf "pathurl" (tag_indented ..) rfl (by rw [htext]; rfl) rfl,
    readAll_other "rate" (tag_indented ..) rfl, readAll_others]
  · rfl
  · rw [forall_mem_map]
    intro x hx
    rw [tag_indented, lookup_pair_cons, if_neg (hrest x hx), lookup_nil]

theorem Located.named_video (h : f.Located) (sources : Sources) (d : Nat) :
    Loader.Named sources ((f.videoFile true).indented d) ((f.videoFile false).indented d)
      (f.fileOf 0).1 (f.fileOf 0).2 where
  first_id := (attr?_indented ..).trans rfl
  later_id := (attr?_indented ..).trans rfl
  known := .inr (h.read_file (by omega) (by simp [node, leaf]) d)

theorem Located.named_sound (h : f.Located) {sources : Sources} {k : Nat} (hk : k < f.tracks)
    (hsources : sources.any (·.1 == (f.fileOf k).1) ∨ f.isSound ∨ 0 < k) (d : Nat) :
    Loader.Named sources ((f.soundFile k true).indented d) ((f.soundFile k false).indented d)
      (f.fileOf k).1 (f.fileOf k).2 where
  first_id := (attr?_indented ..).trans rfl
  later_id := (attr?_indented ..).trans rfl
  known := hsources.imp_right fun hdefined => by
    have hfirst : (true && (f.isSound || k > 0)) = true := by
      simpa using hdefined
    rw [soundFile, if_pos hfirst]
    exact h.read_file (by omega) (by simp [node]) d

/-! ### What is read of a document that was written -/

section

variable {cs : List Chunk} {video sound : List Xml} {ps : List Place} {t : Transcoder}
  {w : Workspace}

def soundFields (f : Facts) (ps : List Place) (k : Nat) : Fields :=
  Loader.trackFields ((f.soundFile k true).indented 6) ((f.soundFile k false).indented 6) ps

def videoFields (f : Facts) (ps : List Place) : Fields :=
  Loader.trackFields ((f.videoFile true).indented 6) ((f.videoFile false).indented 6) ps

def restored (f : Facts) (ps : List Place) (sources : Sources) : Timeline :=
  ⟨sources, FrameRate.timeBase f.rate.base f.rate.reduced, f.sampleRate, f.resolution, "#000",
    if f.src.videos.isEmpty then [] else [ps.map (Loader.clipAt shownAt (f.fileOf 0).1)],
    (range f.tracks).map fun k => ps.map (Loader.clipAt heardAt (f.fileOf k).1), none⟩

theorem restored_v (hvideos : f.src.videos ≠ []) (ps : List Place) (sources : Sources) :
    (f.restored ps sources).v = [ps.map (Loader.clipAt shownAt (f.fileOf 0).1)] :=
  if_neg (by simpa using hvideos)

theorem visitAll_files (f : Facts) (t : Transcoder) (c : Console) :
    (visit t c [] (f.fileOf 0) >>= visitAll t c ((range f.tracks).map f.fileOf)) =
      visitAll t c f.files [] := by
  rw [files]
  cases f.tracks with
  | zero =>
    have hone : visitAll t c ((range (max 1 0)).map f.fileOf) [] =
        visit t c [] (f.fileOf 0) >>= pure := by
      rfl
    rw [hone]
    rfl
  | succ n =>
    rw [Nat.max_eq_right (Nat.succ_le_succ (Nat.zero_le n)), range_succ_eq_map, map_cons,
      visitAll_again]

theorem Located.tracks_sound (h : f.Located) (t : Transcoder) (c : Console) {s : Sources}
    (hs : s.any (·.1 == (f.fileOf 0).1) ∨ f.isSound) (p : Place) (ps : List Place) :
    Loader.tracks ⟨t, c, false⟩ heardAt 0 (s, [])
        ((range f.tracks).map (f.soundFields (p :: ps))) =
      visitAll t c ((range f.tracks).map f.fileOf) s >>= fun s => pure (s,
        (range f.tracks).map fun k =>
          (p :: ps).map (Loader.clipAt heardAt (f.fileOf k).1)) := by
  refine Loader.tracks_all heardAt (fun k hk => h.named_sound (mem_range.1 hk) ?_ 6) [] p ps
  rcases Nat.eq_zero_or_pos k with rfl | hpos
  · exact hs.imp_right .inl
  · exact .inr (.inr hpos)

variable (h : f.Holds cs video sound) (hcs : ∀ c ∈ cs, c.speed.Writable)

include h hcs

theorem Holds.tracksAt_sound (hps : places (.float 0.0) cs = .ok ps) :
    TracksAt 4 sound ((range f.tracks).map (f.soundFields ps)) := by
  rw [TracksAt, forall₂_map_right_iff]
  refine (h.sound.imp fun k x hx => ?_).flip
  obtain ⟨ps', hps', htrack⟩ := hx
  rw [places_zero hcs, hps] at hps'
  cases hps'
  exact htrack.read (mentions_soundFile f k true) (mentions_soundFile f k false)
    (places_writable hcs hps) 4

theorem Holds.tracksAt_video (hps : places (.float 0.0) cs = .ok ps) :
    TracksAt 4 video (if f.src.videos.isEmpty then [] else [f.videoFields ps]) := by
  have hvideo := h.video
  split
  · next hempty =>
    rw [if_pos hempty] at hvideo
    rw [hvideo]
    exact .nil
  · next hempty =>
    rw [if_neg hempty] at hvideo
    obtain ⟨ps', x, hps', htrack, rfl⟩ := hvideo
    rw [hps] at hps'
    cases hps'
    exact .cons (htrack.read (mentions_videoFile f true) (mentions_videoFile f false)
      (places_writable hcs hps) 4) .nil

theorem Holds.exists_places (hstream : f.src.videos ≠ [] ∨ f.src.audios ≠ []) :
    ∃ p ps, places (.float 0.0) cs = .ok (p :: ps) := by
  have hplaces : ∀ {first later ps x}, f.IsTrack first later ps x →
      places (.float 0.0) cs = .ok ps → ∃ p ps, places (.float 0.0) cs = .ok (p :: ps) := by
    rintro first later - - ⟨-, -⟩ hps
    exact ⟨_, _, hps⟩
  have hvideo := h.video
  split at hvideo
  · next hempty =>
    have haudios := hstream.resolve_left (not_not_intro (isEmpty_iff.1 hempty))
    obtain ⟨n, hn⟩ : ∃ n, f.tracks = n + 1 :=
      Nat.exists_eq_add_one.2 (length_pos_iff.2 haudios)
    have hsound := h.sound
    rw [hn, range_succ_eq_map, forall₂_cons_left_iff] at hsound
    obtain ⟨x, -, ⟨ps, hps, htrack⟩, -⟩ := hsound
    exact hplaces htrack (places_zero hcs ▸ hps)
  · obtain ⟨ps, x, hps, htrack, -⟩ := hvideo
    exact hplaces htrack hps

variable {p : Place} {path : String} {c : Console} (hf : f.isWritable)
  (hps : places (.float 0.0) cs = .ok (p :: ps))
  (hload : load path c w = .ok ((f.frame video sound).indented 0) w)

include hf hps hload

theorem Holds.readPremiere (hloc : f.Located) (hcomplete : f.Complete) :
    Timeline.readPremiere path t c w =
      (visitAll t c f.files [] >>= fun s => pure (f.restored (p :: ps) s) :
        Session Timeline) w := by
  rw [readPremiere_frame hload hf (h.tracksAt_video hcs hps) (h.tracksAt_sound hcs hps)]
  refine congrFun ?_ w
  cases hvideos : f.src.videos.isEmpty with
  | true =>
    have htracks : f.tracks = 1 := hcomplete.resolve_left (by simpa using hvideos)
    have hsound : f.isSound := by
      simp [isSound, hvideos, htracks]
    have hfiles : f.files = (range f.tracks).map f.fileOf := by
      rw [files, htracks, max_self]
    simp only [if_true, Loader.tracks, pure_bind, hloc.tracks_sound t c (.inr hsound), bind_assoc,
      hfiles, restored, hvideos]
    rfl
  | false =>
    have hvideo : Loader.tracks ⟨t, c, true⟩ shownAt 0 ([], []) [f.videoFields (p :: ps)] =
        visit t c [] (f.fileOf 0) >>= fun s =>
          pure (s, [(p :: ps).map (Loader.clipAt shownAt (f.fileOf 0).1)]) :=
      Loader.tracks_cons shownAt [] p ps [] (hloc.named_video [] 6)
    simp only [Bool.false_eq_true, if_false, hvideo, bind_assoc, pure_bind]
    rw [← visitAll_files, bind_assoc]
    refine visit_bind_congr fun s hs _ => ?_
    rw [hloc.tracks_sound t c (.inl hs), bind_assoc]
    simp only [pure_bind, restored, hvideos, Bool.false_eq_true, if_false]

theorem Holds.readPremiere_missing (hvideos : f.src.videos = []) (htracks : 2 ≤ f.tracks) :
    Timeline.readPremiere path t c w = (throw .noKey : Session Timeline) w := by
  rw [readPremiere_frame hload hf (h.tracksAt_video hcs hps) (h.tracksAt_sound hcs hps)]
  refine congrFun ?_ w
  obtain ⟨n, hn⟩ := Nat.exists_eq_add_one.2 (Nat.zero_lt_of_lt htracks)
  have hempty : f.soundFile 0 true = nodeWith "file" [("id", "file-1")] [] := by
    have hsound : f.isSound = false := by
      have hne : f.tracks ≠ 1 := by omega
      simp [isSound, hne]
    simp [soundFile, hsound]
    rfl
  have hmissing : Loader.tracks ⟨t, c, false⟩ heardAt 0 ([], [])
      ((range f.tracks).map (f.soundFields (p :: ps))) = throw .noKey := by
    rw [hn, range_succ_eq_map, map_cons]
    have hid : ((f.soundFile 0 true).indented 6).attr? "id" = some "file-1" := by
      rw [attr?_indented, hempty]
      rfl
    refine Loader.tracks_of_missing heardAt [] p ps _ rfl hid rfl ?_
    rw [hempty]
    rfl
  simp only [hvideos, isEmpty_nil, if_true, Loader.tracks, pure_bind, hmissing]
  rfl

end

end Facts

variable {w w' : Workspace} {x : Extractor} {urls : List String} {ps : List Place}
  {ncs : List (Int × Chunk)}

theorem load_document {doc : Xml} (hdoc : doc.Printable) {path : String} {c : Console}
    (h : w.tree.read? (absolutePath path) = some doc.document.toUTF8) :
    load path c w = .ok (doc.indented 0) w := by
  have hfile : isFile path w = .ok true w := by
    have hsome : w.tree.isFile (absolutePath path) = true := by rw [Tree.isFile, h]; rfl
    rw [← hsome]
    rfl
  rw [load, run_bind_of_ok hfile]
  simp only [Bool.not_true, Bool.false_eq_true, if_false]
  rw [run_bind_of_ok (readBytes_ok h)]
  simp only [fromUTF8?_toUTF8, parse_document hdoc]
  rfl

theorem trackUrls_eq_ok {src : Source} (h : trackUrls src x w = .ok urls w') :
    urls.length = max 1 src.audios.length ∧ ∀ u ∈ urls, ∃ path, u = Url.ofPath path := by
  rw [trackUrls] at h
  split at h
  · next hfew =>
    obtain ⟨rfl, -⟩ := run_pure_eq_ok.1 h
    refine ⟨by simp [hfew], ?_⟩
    rw [forall_mem_singleton]
    exact ⟨_, rfl⟩
  · next hmany =>
    simp only [run_bind_eq_ok, run_pure_eq_ok] at h
    obtain ⟨-, w₁, -, rest, w₂, hrest, rfl, -⟩ := h
    obtain ⟨hlength, hpaths⟩ := forall_of_run_mapM (P := fun u => ∃ path, u = Url.ofPath path)
      (fun i s u s' hu => by
        simp only [run_bind_eq_ok, run_pure_eq_ok] at hu
        obtain ⟨a, s₁, -, -, s₂, -, hu, -⟩ := hu
        exact ⟨_, hu.symm⟩) hrest
    rw [length_range'] at hlength
    refine ⟨by rw [length_cons, hlength]; omega, forall_mem_cons.2 ⟨⟨_, rfl⟩, hpaths⟩⟩

theorem ofFloat?_zero : ofFloat? 0.0 = inRange? (nearest (0 : Int)) := by
  have hvalue : ofFloat? 0.0 = some 0 := by decide +kernel
  rw [hvalue, Int.cast_zero, nearest_zero, inRange?_of_le (abs_le_largest hvalue)]

theorem speedNodes_even {c : Chunk} (h : c.Even) : speedNodes c = .ok [] := by
  have hone : c.speed.eqv 1 :=
    (eqv_iff_of_toRat? h.value (toRat?_ofNat 1)).2 (by norm_num)
  rw [speedNodes, if_pos hone]
  rfl

theorem exists_speedNodes {c : Chunk} (h : c.speed.Writable) : ∃ xs, speedNodes c = .ok xs := by
  rw [speedNodes]
  split
  · exact ⟨_, rfl⟩
  · obtain ⟨n, hn⟩ | ⟨x, hx⟩ := writable_iff.1 h
    · rw [hn]
      exact ⟨_, rfl⟩
    · obtain ⟨y, hy, -⟩ :=
        nearestFloat_ok (q := ((100 : Nat) : Int)) (le_largest (by norm_num))
      have hmul : mul c.speed 100 = .ok (.float (x * y)) := by
        rw [hx]
        change mul (.float x) (.int (100 : Nat)) = _
        simp only [mul, lift, toFloat, hy, ok_bind]
        rfl
      rw [hmul]
      exact ⟨_, rfl⟩

namespace Facts

variable {f : Facts} {cs : List Chunk} {ps : List Place}

theorem clips_ok (make : Nat → Chunk → Place → Except Fault Xml) {total : Number}
    (hps : places total cs = .ok ps) (hmake : ∀ j, ∀ c ∈ cs, ∀ p, ∃ x, make j c p = .ok x) :
    ∃ xs, clips make total cs = .ok xs := by
  have hall : ∀ cpj ∈ (cs.zip ps).zipIdx, ∃ x, make cpj.2 cpj.1.1 cpj.1.2 = .ok x := by
    rintro ⟨⟨c, p⟩, j⟩ hmem
    exact hmake j c (of_mem_zip (fst_mem_of_mem_zipIdx hmem)).1 p
  rw [clips, hps, ok_bind]
  exact mapM_ok_iff.2 hall

theorem exists_document {rs : List Place} (hf : f.isWritable)
    (hcs : ∀ c ∈ cs, ∃ xs, speedNodes c = .ok xs) (hps : places (.float 0.0) cs = .ok ps)
    (hrs : places (.int 0) cs = .ok rs) : ∃ doc, f.document cs = .ok doc := by
  obtain ⟨video, hvideo⟩ : ∃ video, f.videoTracks cs = .ok video := by
    simp only [videoTracks_eq_ok]
    split
    · exact ⟨_, rfl⟩
    · obtain ⟨xs, hxs⟩ := clips_ok f.videoClip hps fun j c hc p => by
        obtain ⟨speed, hspeed⟩ := hcs c hc
        rw [videoClip, hspeed]
        exact ⟨_, rfl⟩
      exact ⟨_, xs, hxs, rfl⟩
  obtain ⟨sound, hsound⟩ := mapM_ok_iff.2 fun k (_ : k ∈ range f.tracks) => by
    obtain ⟨xs, hxs⟩ := clips_ok (f.soundClip k) hrs fun j c hc p => by
      obtain ⟨speed, hspeed⟩ := hcs c hc
      rw [soundClip, hspeed]
      exact ⟨_, rfl⟩
    exact ⟨_, soundTrack_eq_ok.2 ⟨xs, hxs, rfl⟩⟩
  exact ⟨_, document_eq_ok.2 ⟨hf, video, sound, hvideo, mapM_eq_ok.1 hsound, rfl⟩⟩

theorem document_ok (hf : f.isWritable) (hcs : ∀ c ∈ cs, c.Even)
    (hps : places (.float 0.0) cs = .ok ps) : ∃ doc, f.document cs = .ok doc :=
  exists_document hf (fun c hc => ⟨_, speedNodes_even (hcs c hc)⟩) hps
    ((places_zero fun c hc => (hcs c hc).writable).trans hps)

end Facts

theorem map_clipAt_of_shows {α : Type}
    (make : (start dur : Int) → (src : String) → (offset : Int) → α) (id : String)
    (h : Forall₂ (fun p nc => p.Shows nc.1 nc.2) ps ncs) :
    ps.map (Loader.clipAt make id) = ncs.map fun nc => make nc.1 nc.2.length id nc.2.start := by
  rw [← forall₂_eq_eq_eq, forall₂_map_left_iff, forall₂_map_right_iff]
  refine h.imp fun p nc hshows => ?_
  rw [Loader.clipAt, hshows.length, hshows.start, hshows.source]

theorem shows_of_map_clipAt {id : String} (h : ps.map (Loader.clipAt Facts.shownAt id) =
      ncs.map fun nc => Facts.shownAt nc.1 nc.2.length id nc.2.start) :
    Forall₂ (fun p nc => p.Shows nc.1 nc.2) ps ncs := by
  rw [← forall₂_eq_eq_eq, forall₂_map_left_iff, forall₂_map_right_iff] at h
  refine h.imp fun p nc heq => ?_
  simp only [Loader.clipAt, Facts.shownAt, VisualItem.clip.injEq, VideoClip.mk.injEq] at heq
  exact ⟨heq.1, heq.2.1, heq.2.2.2.1⟩

def factsOf (tl : Timeline) (src : Source) (cs : List Chunk) (stop : Int) (urls : List String) :
    Facts :=
  ⟨src, .ofTimeBase tl.tb, tl.rate, tl.resolution, stop, (cs.filter (!·.isCut)).length, urls⟩

theorem located_factsOf (tl : Timeline) {src : Source} (h : trackUrls src x w = .ok urls w')
    (cs : List Chunk) (stop : Int) : (factsOf tl src cs stop urls).Located :=
  ⟨(trackUrls_eq_ok h).1, (trackUrls_eq_ok h).2⟩

theorem filter_ne_nil {cs : List Chunk} (h : ∃ c ∈ cs, ¬ c.isCut) : cs.filter (!·.isCut) ≠ [] := by
  obtain ⟨c, hc, hcut⟩ := h
  exact ne_nil_of_mem (mem_filter.2 ⟨hc, by simpa using hcut⟩)

end Premiere

open Premiere

namespace Timeline

variable {tl : Timeline} {cs : List Chunk} {last : Chunk} {src : Source} {x : Extractor}
  {path : String} {w w₁ w₂ : Workspace} {urls : List String} (hchunks : tl.chunks = some cs)
  (hlast : cs.getLast? = some last) (hsrc : tl.source "0" = .ok src)
  (hurls : trackUrls src x w = .ok urls w₁)

section

include hchunks hlast hsrc hurls

theorem writePremiere_eq_ok :
    tl.writePremiere x path w = .ok () w₂ ↔
      ∃ doc, (factsOf tl src cs last.stop urls).document (cs.filter (!·.isCut)) = .ok doc ∧
        writeText path doc.document w₁ = .ok () w₂ := by
  rw [writePremiere, hchunks]
  simp only [hlast, hsrc, ofExcept_ok, pure_bind]
  rw [run_bind_of_ok hurls, run_bind_eq_ok]
  simp only [ofExcept_eq_ok]
  constructor
  · rintro ⟨doc, r, ⟨hdoc, rfl⟩, hwrite⟩
    exact ⟨doc, hdoc, hwrite⟩
  · rintro ⟨doc, hdoc, hwrite⟩
    exact ⟨doc, w₁, ⟨hdoc, rfl⟩, hwrite⟩

theorem readPremiere_written (hkept : ∃ c ∈ cs, ¬ c.isCut) (hspeeds : ∀ c ∈ cs, c.speed.Writable)
    (hstream : src.videos ≠ [] ∨ src.audios ≠ []) (hname : Xml.isText src.fileName)
    (hwrite : tl.writePremiere x path w = .ok () w₂) (t : Transcoder) (c : Console) :
    ∃ p ps, places (.float 0.0) (cs.filter (!·.isCut)) = .ok (p :: ps) ∧
      ((factsOf tl src cs last.stop urls).Complete → readPremiere path t c w₂ =
        (visitAll t c (factsOf tl src cs last.stop urls).files [] >>= fun s =>
          pure ((factsOf tl src cs last.stop urls).restored (p :: ps) s) : Session Timeline) w₂) ∧
      (¬ (factsOf tl src cs last.stop urls).Complete →
        readPremiere path t c w₂ = (throw .noKey : Session Timeline) w₂) := by
  obtain ⟨doc, hdoc, hwritten⟩ := (writePremiere_eq_ok hchunks hlast hsrc hurls).1 hwrite
  have hloc := located_factsOf tl hurls cs last.stop
  have hload := load_document (c := c) ((hloc.textual hname).document hdoc)
    (read?_of_writeText hwritten)
  have hcs : ∀ c ∈ cs.filter (!·.isCut), c.speed.Writable :=
    fun c hc => hspeeds c (mem_of_mem_filter hc)
  obtain ⟨video, sound, rfl, hholds⟩ := Facts.holds_of_document (filter_ne_nil hkept) hdoc
  obtain ⟨p, ps, hps⟩ := hholds.exists_places hcs hstream
  have hf := (Facts.document_eq_ok.1 hdoc).1
  refine ⟨p, ps, hps, fun hcomplete => hholds.readPremiere hcs hf hps hload hloc hcomplete,
    fun hcomplete => ?_⟩
  obtain ⟨hvideos, htracks⟩ := Facts.tracks_of_not_complete hstream hcomplete
  exact hholds.readPremiere_missing hcs hf hps hload hvideos htracks

/-- The first clip that mentions a file gives its address, and the document can be read, but for
sources with sound in several streams and no video. -/
theorem writePremiere_defines_files {doc : Xml} (hkept : ∃ c ∈ cs, ¬ c.isCut)
    (hstream : src.videos ≠ [] ∨ src.audios ≠ [])
    (hdoc : (factsOf tl src cs last.stop urls).document (cs.filter (!·.isCut)) = .ok doc)
    (hwrite : tl.writePremiere x path w = .ok () w₂) :
    (FilesDefined urls doc ↔ src.videos ≠ [] ∨ src.audios.length = 1) ∧
    ∀ t c, (∀ c ∈ cs, c.speed.Writable) → Xml.isText src.fileName →
      (∃ s w₃, visitAll t c (factsOf tl src cs last.stop urls).files [] w₂ = .ok s w₃) →
      ((∃ tl' w₃, readPremiere path t c w₂ = .ok tl' w₃) ↔
        src.videos ≠ [] ∨ src.audios.length = 1) := by
  have hloc := located_factsOf tl hurls cs last.stop
  refine ⟨Facts.filesDefined_iff (filter_ne_nil hkept) hloc.count hstream hdoc, ?_⟩
  intro t c hspeeds hname hfiles
  obtain ⟨p, ps, -, hread, hfail⟩ :=
    readPremiere_written hchunks hlast hsrc hurls hkept hspeeds hstream hname hwrite t c
  constructor
  · rintro ⟨tl', w₃, htl⟩
    by_contra hcomplete
    rw [hfail hcomplete] at htl
    exact run_throw_ne_ok htl
  · intro hcomplete
    obtain ⟨s, w₃, hs⟩ := hfiles
    rw [hread hcomplete, run_bind_of_ok hs]
    exact ⟨_, w₃, rfl⟩

end

/-! ### A concert -/

def concert (filmed : Bool) : Source where
  path := "a.mov"
  label := "0"
  bitrate := .null
  duration := .str ""
  description := .null
  videos := if filmed then [⟨4, 2, "h264", 30, none, none, 1 / 30, "yuv420p",
    none, none, none, none, .null, .null⟩] else []
  audios := replicate 2 ⟨"aac", 48000, none, .null, .null⟩
  subtitles := []

def stage : Workspace :=
  let medium : Medium :=
    ⟨none, (Json.obj [("streams", .arr []), ("format", .obj [])]).compact, [], [], []⟩
  { emptyWorkspace with
    tree := ⟨[("/work/a.mov", ByteArray.empty), ("/work/0-1.wav", ByteArray.empty)], ["/work"]⟩
    media := [("/work/a.mov", medium), ("/work/a_tracks/1.wav", medium)] }

def concertOf (filmed : Bool) (cs : List Chunk) : Timeline where
  sources := [("0", concert filmed)]
  tb := 30
  rate := 48000
  resolution := (4, 2)
  background := "#000"
  v := if filmed then [(laid 0 cs).map fun nc =>
    .clip ⟨nc.1, nc.2.length, .text "0", nc.2.start, 1, 0⟩] else []
  a := (range 2).map fun k => (laid 0 cs).map fun nc =>
    ⟨nc.1, nc.2.length, .text "0", nc.2.start, 1, .int 1, k⟩
  chunks := some cs

def concertUrls : List String := ["file:///work/a.mov", "file:///work/a_tracks/1.wav"]

theorem trackUrls_concert :
    ∃ w₁, trackUrls (concert true) quietSetup.extractor stage = .ok concertUrls w₁ ∧
      w₁.tree.isDir (Path.dir (absolutePath "o.xml")) ∧
      ¬ w₁.tree.isDir (absolutePath "o.xml") := by
  have hends : (do
      let urls ← trackUrls (concert true) quietSetup.extractor
      let w ← get
      return (urls, w.tree.isDir (Path.dir (absolutePath "o.xml")),
        w.tree.isDir (absolutePath "o.xml")) : Session (List String × Bool × Bool)).run' stage =
      some (concertUrls, true, false) := by
    decide +kernel
  obtain ⟨w, hrun⟩ := run'_eq_some.1 hends
  simp only [run_bind_eq_ok, run_pure_eq_ok, Prod.mk.injEq] at hrun
  obtain ⟨urls, w₁, hurls, _, _, hget, ⟨rfl, hdir, hnew⟩, -⟩ := hrun
  cases hget
  exact ⟨w₁, hurls, hdir, by simp [hnew]⟩

def concertRun (cs : List Chunk) (stop : Int) : Session Nat := do
  (concertOf true cs).writePremiere quietSetup.extractor "o.xml"
  let s ← visitAll quietSetup.extractor.transcoder quietSetup.console
    (factsOf (concertOf true cs) (concert true) cs stop concertUrls).files []
  return s.length

theorem exists_of_concertRun {cs : List Chunk} {stop : Int}
    (h : (concertRun cs stop).run' stage = some 2) :
    ∃ w₂, (concertOf true cs).writePremiere quietSetup.extractor "o.xml" stage = .ok () w₂ ∧
      ∃ s w₃, visitAll quietSetup.extractor.transcoder quietSetup.console
        (factsOf (concertOf true cs) (concert true) cs stop concertUrls).files [] w₂ =
          .ok s w₃ := by
  obtain ⟨w, hrun⟩ := run'_eq_some.1 h
  simp only [concertRun, run_bind_eq_ok, run_pure_eq_ok] at hrun
  obtain ⟨_, w₂, hwrite, s, w₃, hs, -⟩ := hrun
  exact ⟨w₂, hwrite, s, w₃, hs⟩

def twoParts : List Chunk := [⟨0, 3, 1⟩, ⟨3, 5, 99999⟩, ⟨5, 9, .float 1.0⟩]

theorem twoParts_plain : ∀ c ∈ twoParts, c.Plain ∧ c.speed.Writable := by
  have hone := toRat?_one
  simp only [twoParts, forall_mem_cons, not_mem_nil, false_imp_iff, implies_true,
    and_true]
  exact ⟨⟨.inl rfl, .int 1, rfl⟩, ⟨.inr rfl, .int 99999, rfl⟩, .inl hone, .float 1.0, rfl⟩

theorem twoParts_kept : ∃ c ∈ twoParts, ¬ c.isCut :=
  ⟨⟨0, 3, 1⟩, .head _, by rw [isCut_iff (q := 1) rfl]; norm_num⟩

theorem concertRun_twoParts : (concertRun twoParts 9).run' stage = some 2 := by
  decide +kernel

theorem writePremiere_defines_files_two_streams :
    ∃ doc w₂, (factsOf (concertOf true twoParts) (concert true) twoParts 9 concertUrls).document
        (twoParts.filter (!·.isCut)) = .ok doc ∧
      (concertOf true twoParts).writePremiere quietSetup.extractor "o.xml" stage = .ok () w₂ ∧
      FilesDefined concertUrls doc ∧
      ∃ tl w₃, readPremiere "o.xml" quietSetup.extractor.transcoder quietSetup.console w₂ =
        .ok tl w₃ := by
  obtain ⟨w₁, hurls, -⟩ := trackUrls_concert
  obtain ⟨w₂, hwrite, hfiles⟩ := exists_of_concertRun concertRun_twoParts
  have hchunks : (concertOf true twoParts).chunks = some twoParts := rfl
  have hlast : twoParts.getLast? = some ⟨5, 9, .float 1.0⟩ := rfl
  have hfilmed : (concert true).videos ≠ [] := by simp [concert]
  obtain ⟨doc, hdoc, -⟩ := (writePremiere_eq_ok hchunks hlast rfl hurls).1 hwrite
  obtain ⟨hdefined, hread⟩ := writePremiere_defines_files hchunks hlast rfl hurls twoParts_kept
    (.inl hfilmed) hdoc hwrite
  have hread := hread _ _ (fun c hc => (twoParts_plain c hc).2) (by decide +kernel) hfiles
  exact ⟨doc, w₂, hdoc, hwrite, hdefined.2 (.inl hfilmed), hread.2 (.inl hfilmed)⟩

theorem first_file_without_address :
    ((factsOf (concertOf false twoParts) (concert false) twoParts 9 concertUrls).document
      (twoParts.filter (!·.isCut))).toOption.map (fun doc => (doc.named "clipitem").head?.map
        fun x => (fileId? x, address? x)) = some (some (some "file-1", none)) := by
  decide +kernel

section

include hchunks hlast hsrc hurls

/-- What was written of chunks at speed 1 is read as it was, just where nothing is rounded. -/
theorem readPremiere_writePremiere_iff {t : Transcoder} {c : Console}
    (hplain : ∀ c ∈ cs, c.Plain) (hspeeds : ∀ c ∈ cs, c.speed.Writable)
    (hkept : ∃ c ∈ cs, ¬ c.isCut) (hvideos : src.videos ≠ [])
    (hname : Xml.isText src.fileName)
    (hdir : w₁.tree.isDir (Path.dir (absolutePath path)))
    (hnew : ¬ w₁.tree.isDir (absolutePath path))
    (hfiles : ∀ w₂, tl.writePremiere x path w = .ok () w₂ →
      ∃ s w₃, visitAll t c (factsOf tl src cs last.stop urls).files [] w₂ = .ok s w₃) :
    (∃ w₂ tl' w₃, tl.writePremiere x path w = .ok () w₂ ∧ readPremiere path t c w₂ = .ok tl' w₃ ∧
      tl'.v = [(laid 0 cs).map fun nc =>
        .clip ⟨nc.1, nc.2.length, .text "file-1", nc.2.start, 1, 0⟩] ∧
      tl'.a = (range src.audios.length).map (fun k => (laid 0 cs).map fun nc =>
        ⟨nc.1, nc.2.length, .text ("file-" ++ toString (k + 1)), nc.2.start, 1, .int 1, 0⟩) ∧
      tl'.resolution = tl.resolution ∧ tl'.rate = tl.rate) ↔
    (factsOf tl src cs last.stop urls).isWritable ∧
      ∀ nc ∈ laid 0 cs, nc.2.Unrounded nc.1 := by
  have heven : ∀ c ∈ cs.filter (!·.isCut), c.Even ∧ ¬ c.isCut := by
    intro c hc
    obtain ⟨hmem, hcut⟩ := mem_filter.1 hc
    have hcut : ¬ c.isCut := by simpa using hcut
    exact ⟨(hplain c hmem).even (hspeeds c hmem) hcut, hcut⟩
  have hplaces := exists_places_iff heven ofFloat?_zero
  rw [laid_filter] at hplaces
  constructor
  · rintro ⟨w₂, tl', w₃, hwrite, hread, hv, -⟩
    obtain ⟨doc, hdoc, -⟩ := (writePremiere_eq_ok hchunks hlast hsrc hurls).1 hwrite
    obtain ⟨p, ps, hps, hcomplete, -⟩ := readPremiere_written hchunks hlast hsrc hurls hkept hspeeds
      (.inl hvideos) hname hwrite t c
    rw [hcomplete (.inl hvideos), run_bind_eq_ok] at hread
    obtain ⟨s, w₄, -, hpure⟩ := hread
    obtain ⟨rfl, -⟩ := run_pure_eq_ok.1 hpure
    rw [Facts.restored_v hvideos, singleton_inj] at hv
    exact ⟨(Facts.document_eq_ok.1 hdoc).1, hplaces.1 ⟨_, hps, shows_of_map_clipAt hv⟩⟩
  · rintro ⟨hf, hunrounded⟩
    obtain ⟨ps, hps, hshows⟩ := hplaces.2 hunrounded
    obtain ⟨doc, hdoc⟩ := Facts.document_ok hf (fun c hc => (heven c hc).1) hps
    have hwrite := (writePremiere_eq_ok hchunks hlast hsrc hurls).2
      ⟨doc, hdoc, writeText_ok doc.document hdir hnew⟩
    obtain ⟨p, ps', hps', hcomplete, -⟩ := readPremiere_written hchunks hlast hsrc hurls hkept
      hspeeds (.inl hvideos) hname hwrite t c
    obtain rfl := Except.ok.inj (hps.symm.trans hps')
    obtain ⟨s, w₃, hs⟩ := hfiles _ hwrite
    have hread := hcomplete (.inl hvideos)
    rw [run_bind_of_ok hs] at hread
    refine ⟨_, _, w₃, hwrite, hread, ?_, ?_, rfl, rfl⟩
    · rw [Facts.restored_v hvideos, map_clipAt_of_shows _ _ hshows]
      rfl
    · exact map_congr_left fun k _ => map_clipAt_of_shows Facts.heardAt _ hshows

end

theorem readPremiere_writePremiere_two_parts :
    ∃ w₂ tl w₃, (concertOf true twoParts).writePremiere quietSetup.extractor "o.xml" stage =
        .ok () w₂ ∧
      readPremiere "o.xml" quietSetup.extractor.transcoder quietSetup.console w₂ = .ok tl w₃ ∧
      tl.v = [[.clip ⟨0, 3, .text "file-1", 0, 1, 0⟩, .clip ⟨3, 4, .text "file-1", 5, 1, 0⟩]] ∧
      tl.a = [[⟨0, 3, .text "file-1", 0, 1, .int 1, 0⟩, ⟨3, 4, .text "file-1", 5, 1, .int 1, 0⟩],
        [⟨0, 3, .text "file-2", 0, 1, .int 1, 0⟩, ⟨3, 4, .text "file-2", 5, 1, .int 1, 0⟩]] ∧
      tl.resolution = (4, 2) ∧ tl.rate = 48000 := by
  obtain ⟨w₁, hurls, hdir, hnew⟩ := trackUrls_concert
  obtain ⟨w₂, hwrite, hfiles⟩ := exists_of_concertRun concertRun_twoParts
  have hchunks : (concertOf true twoParts).chunks = some twoParts := rfl
  have hlast : twoParts.getLast? = some ⟨5, 9, .float 1.0⟩ := rfl
  have htiles : Tiles 0 9 twoParts :=
    ⟨rfl, by decide, rfl, by decide, rfl, by decide, rfl⟩
  have hlaid : laid 0 twoParts = [(0, ⟨0, 3, 1⟩), (3, ⟨5, 9, .float 1.0⟩)] := by
    have hcuts : twoParts.map isCut = [false, true, false] := by decide +kernel
    simp only [twoParts, map_cons, cons.injEq] at hcuts
    simp only [twoParts, laid, hcuts, Bool.false_eq_true, if_false, if_true]
    rfl
  obtain ⟨w₂, tl, w₃, hwrite, hread, hv, ha, hresolution, hrate⟩ :=
    (readPremiere_writePremiere_iff hchunks hlast rfl hurls (fun c hc => (twoParts_plain c hc).1)
      (fun c hc => (twoParts_plain c hc).2) twoParts_kept (by simp [concert]) (by decide +kernel)
      hdir hnew fun w hw => by cases hwrite.symm.trans hw; exact hfiles).2
      ⟨by decide +kernel, htiles.unrounded le_rfl le_rfl (by norm_num)⟩
  rw [hlaid] at hv ha
  exact ⟨w₂, tl, w₃, hwrite, hread, hv, ha, hresolution, hrate⟩

def endless : List Chunk := [⟨0, 9007199254740993, .float 1.0⟩]

theorem readPremiere_rounded :
    ∃ w₂ tl w₃, (concertOf true endless).writePremiere quietSetup.extractor "o.xml" stage =
        .ok () w₂ ∧
      readPremiere "o.xml" quietSetup.extractor.transcoder quietSetup.console w₂ = .ok tl w₃ ∧
      tl.v = [[.clip ⟨0, 9007199254740992, .text "file-1", 0, 1, 0⟩]] := by
  have hends : (concertRun endless 9007199254740993).run' stage = some 2 := by
    decide +kernel
  obtain ⟨w₁, hurls, -⟩ := trackUrls_concert
  obtain ⟨w₂, hwrite, s, w₃, hs⟩ := exists_of_concertRun hends
  have hchunks : (concertOf true endless).chunks = some endless := rfl
  have hlast : endless.getLast? = some ⟨0, 9007199254740993, .float 1.0⟩ := rfl
  have hfilmed : (concert true).videos ≠ [] := by simp [concert]
  obtain ⟨p, ps, hps, hread, -⟩ := readPremiere_written hchunks hlast rfl hurls
    ⟨_, .head _, by decide +kernel⟩ (by simp [endless, writable_iff]) (.inl hfilmed)
    (by decide +kernel) hwrite quietSetup.extractor.transcoder quietSetup.console
  have hread := hread (.inl hfilmed)
  rw [run_bind_of_ok hs] at hread
  refine ⟨w₂, _, w₃, hwrite, hread, ?_⟩
  have hplaces : (places (.float 0.0) (endless.filter (!·.isCut))).toOption.map
      (map fun p => (p.start, p.stop, p.source)) = some [(0, 9007199254740992, 0)] := by
    decide +kernel
  rw [hps] at hplaces
  simp only [Except.toOption, Option.map_some, Option.some.injEq, map_cons, cons.injEq,
    Prod.mk.injEq, map_eq_nil_iff] at hplaces
  obtain ⟨⟨hstart, hstop, hsource⟩, rfl⟩ := hplaces
  rw [Facts.restored_v hfilmed, map_singleton, Loader.clipAt, hstart, hstop, hsource]
  rfl

end Timeline

end Jumpcut
