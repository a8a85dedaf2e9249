import Jumpcut.Proofs.AcceptanceLaws
import Jumpcut.Proofs.JsonLaws
import Jumpcut.Proofs.LayerLaws
import Jumpcut.Proofs.WorkspaceLaws

namespace Jumpcut

open Outcome List Layers Session Timeline Chunk WrittenChunk Exact Console Json Setting

def Number.Agrees (x y : Number) : Prop := ∃ q, x.toRat? = some q ∧ y.toRat? = some q

theorem Number.agrees_toFloat {x : Number} {y : Float} (hw : x.Writable) (hs : x.IsSpeed)
    (h : x.toFloat = .ok y) : x.Agrees (.float y) := by
  obtain ⟨q, hq, hlo, hhi⟩ := hs
  have hgrid : OnGrid q := by
    obtain ⟨j, hj⟩ := hw
    cases x with
    | int n =>
      cases hq
      apply onGrid_intCast
      have hlo' : 0 < n := by exact_mod_cast hlo
      have hhi' : n ≤ 99999 := by exact_mod_cast hhi
      rw [abs_of_pos hlo']
      omega
    | float f => exact onGrid_of_ofFloat? hq
    | frac _ | complex _ _ => cases hj
  obtain ⟨z, hz, hvalue⟩ := toFloat_ok hq (le_largest (by rw [abs_of_pos hlo]; linarith))
  obtain rfl := Except.ok.inj (h.symm.trans hz)
  rw [nearest_eq_self hgrid] at hvalue
  exact ⟨q, hq, hvalue⟩

inductive Chunk.Agrees : Chunk → Chunk → Prop
  | intro {start stop : Int} {x y : Number} :
      x.Agrees y → Agrees ⟨start, stop, x⟩ ⟨start, stop, y⟩

inductive Clip.Agrees : Clip → Clip → Prop
  | intro {start dur offset : Int} {src : String} {x y : Number} :
      x.Agrees y → Agrees ⟨start, dur, offset, x, src⟩ ⟨start, dur, offset, y, src⟩

inductive VisualItem.Agrees : VisualItem → VisualItem → Prop
  | clip {start dur offset stream : Int} {src : Raw} {x y : Number} : x.Agrees y →
      Agrees (.clip ⟨start, dur, src, offset, x, stream⟩)
        (.clip ⟨start, dur, src, offset, y, stream⟩)
  | drawing (d : Drawing) : Agrees (.drawing d) (.drawing d)

inductive AudioClip.Agrees : AudioClip → AudioClip → Prop
  | intro {start dur offset stream : Int} {src volume : Raw} {x y : Number} : x.Agrees y →
      Agrees ⟨start, dur, src, offset, x, volume, stream⟩
        ⟨start, dur, src, offset, y, volume, stream⟩

namespace Chunk

variable {c d : Chunk} {cs ds : List Chunk}

theorem Agrees.isCut_eq (h : c.Agrees d) : d.isCut = c.isCut := by
  obtain ⟨q, hc, hd⟩ := h
  rw [Bool.eq_iff_iff, isCut_iff hd]
  exact (isCut_iff hc).symm

theorem Agrees.span_eq (h : c.Agrees d) : d.span = c.span := by
  obtain ⟨q, hc, hd⟩ := h
  simp only [span, hc, hd]
  rfl

theorem Agrees.hasPace (h : c.Agrees d) (hc : c.HasPace) : d.HasPace := by
  obtain ⟨p, hp, hpos⟩ := hc
  obtain ⟨q, hq, hd⟩ := h
  obtain rfl := Option.some.inj (hp.symm.trans hq)
  exact ⟨p, hd, hpos⟩

theorem schedule_agrees (h : Forall₂ Agrees cs ds) (start : Rat) :
    Forall₂ (fun p r => p.1 = r.1 ∧ p.2.Agrees r.2) (schedule start cs)
      (schedule start ds) := by
  induction h generalizing start with
  | nil => exact .nil
  | @cons c d cs ds hcd _ ih =>
    rw [schedule, schedule, hcd.isCut_eq, hcd.span_eq]
    split
    · exact ih start
    · exact .cons ⟨rfl, hcd⟩ (ih _)

end Chunk

namespace Clip

theorem pick_agrees {src : String} {first : Bool} {last : Option Int} {ps rs : List (Rat × Chunk)}
    (h : Forall₂ (fun p r => p.1 = r.1 ∧ p.2.Agrees r.2) ps rs) :
    Forall₂ Agrees (pick src first last ps) (pick src first last rs) := by
  induction h generalizing first last with
  | nil => exact .nil
  | @cons p r ps rs hpr _ ih =>
    obtain ⟨s, c⟩ := p
    obtain ⟨s', d⟩ := r
    obtain ⟨hs, hcd⟩ := hpr
    obtain rfl : s = s' := hs
    cases hcd with
    | intro hspeed =>
      rw [pick, pick]
      split
      · exact ih
      · exact .cons (.intro hspeed) ih

theorem ofChunks_agrees {src : String} {start : Rat} {cs ds : List Chunk} {clips : List Clip}
    (h : Forall₂ Chunk.Agrees cs ds) (hpace : ∀ c ∈ cs, c.HasPace)
    (hclips : ofChunks src start cs = .ok clips) :
    ∃ clips', ofChunks src start ds = .ok clips' ∧ Forall₂ Agrees clips clips' := by
  have hpace' : ∀ d ∈ ds, d.HasPace := by
    intro d hd
    obtain ⟨c, hc, hcd⟩ := exists_of_mem_right h hd
    exact hcd.hasPace (hpace c hc)
  rw [ofChunks, ofChunksFrom_eq_pick hpace] at hclips
  cases hclips
  exact ⟨_, ofChunksFrom_eq_pick hpace', pick_agrees (schedule_agrees h start)⟩

end Clip

structure Source.SameStreams (s r : Source) : Prop where
  videos : r.videos.length = s.videos.length
  audios : r.audios.length = s.audios.length
  fps : r.fps = s.fps

theorem layersOf_agrees {clips clips' : List Clip} {src src' : Source}
    (h : Forall₂ Clip.Agrees clips clips') (hsame : src.SameStreams src') :
    Forall₂ (Forall₂ VisualItem.Agrees) (layersOf [clips] [src]).1
        (layersOf [clips'] [src']).1 ∧
      Forall₂ (Forall₂ AudioClip.Agrees) (layersOf [clips] [src]).2
        (layersOf [clips'] [src']).2 := by
  have hvideos : src'.videos.isEmpty = src.videos.isEmpty := by
    rw [Bool.eq_iff_iff, isEmpty_iff_length_eq_zero, isEmpty_iff_length_eq_zero,
      hsame.videos]
  have hshown : Forall₂ VisualItem.Agrees (shown (clips, src))
      (shown (clips', src')) := by
    rw [shown, shown, hvideos]
    split
    · exact .nil
    · rw [forall₂_map_left_iff, forall₂_map_right_iff]
      refine h.imp ?_
      rintro _ _ ⟨hspeed⟩
      exact .clip hspeed
  have hheard (k : Nat) : Forall₂ AudioClip.Agrees (heard k (clips, src))
      (heard k (clips', src')) := by
    rw [heard, heard, hsame.audios]
    split
    · rw [forall₂_map_left_iff, forall₂_map_right_iff]
      refine h.imp ?_
      rintro _ _ ⟨hspeed⟩
      exact .intro hspeed
    · exact .nil
  have heq := layersOf_eq [(clips, src)]
  have heq' := layersOf_eq [(clips', src')]
  simp only [map_cons, map_nil, flatMap_singleton, hsame.audios] at heq heq'
  rw [heq, heq', forall₂_map_left_iff, forall₂_map_right_iff, forall₂_same]
  refine ⟨?_, fun k _ => hheard k⟩
  revert hshown
  generalize shown (clips, src) = items, shown (clips', src') = items'
  rintro (_ | ⟨hx, hxs⟩)
  · exact .nil
  · exact .cons (.cons hx hxs) .nil

theorem ne_zero_of_labelProblem? {label : String} (h : labelProblem? label = .ok none) :
    label ≠ "0" := by
  rintro rfl
  cases h

theorem lookup_addSources {t : Transcoder} {c : Console} {sources out : List (String × Source)}
    {raws : List String} {w w' : Workspace} (h : addSources t c sources raws w = .ok out w') :
    out.lookup "0" = sources.lookup "0" := by
  induction raws generalizing sources w with
  | nil =>
    rw [addSources, run_pure_eq_ok] at h
    rw [h.1]
  | cons raw raws ih =>
    rw [addSources] at h
    generalize parts ':' raw = parts at h
    match parts, h with
    | [label, path], h =>
      simp only [run_bind_eq_ok, ofExcept_eq_ok] at h
      obtain ⟨problem, w₁, ⟨hlabel, -⟩, h⟩ := h
      cases problem with
      | some problem => exact absurd h (c.fail_ne_ok problem)
      | none =>
        simp only [run_bind_eq_ok] at h
        obtain ⟨found, w₂, -, h⟩ := h
        cases found with
        | false => exact absurd h (c.fail_ne_ok _)
        | true =>
          simp only [Bool.not_true, Bool.false_eq_true, if_false, run_bind_eq_ok] at h
          obtain ⟨src, w₃, -, h⟩ := h
          rw [ih h, putSource, lookup_put, if_neg (ne_zero_of_labelProblem? hlabel).symm]
    | [], h | [_], h | _ :: _ :: _ :: _, h => exact absurd h (c.fail_ne_ok _)

namespace WrittenChunk

theorem Reads.toChunk {c : Chunk} {w : WrittenChunk} (h : Reads c w) :
    w.toChunk = .ok ⟨c.start, c.stop, .float w.speed⟩ := by
  have hint (n : Int) : (int n).toInt = .ok n := rfl
  simp only [WrittenChunk.toChunk, h.start_eq, h.stop_eq, hint, ok_bind, Bool.and_true,
    Bool.or_true, if_true]
  rfl

theorem toChunk_agrees {cs : List Chunk} {ws : List WrittenChunk} (h : Forall₂ Reads cs ws)
    (hlim : ∀ c ∈ cs, c.HasLimits) :
    ∃ ds, ws.mapM toChunk = .ok ds ∧ Forall₂ Agrees cs ds := by
  induction h with
  | nil => exact ⟨[], rfl, .nil⟩
  | @cons c w cs ws hread _ ih =>
    obtain ⟨hc, hcs⟩ := forall_mem_cons.1 hlim
    obtain ⟨ds, hds, hagree⟩ := ih hcs
    have hspeed := Number.agrees_toFloat hc.writable hc.isSpeed hread.speed_eq
    refine ⟨⟨c.start, c.stop, .float w.speed⟩ :: ds, ?_, .cons (.intro hspeed) hagree⟩
    rw [mapM_cons, hread.toChunk, ok_bind, hds]
    rfl

end WrittenChunk

namespace Timeline

variable {src src' : Source} {t : Transcoder} {x : Extractor} {o : Options} {rate : Int} {bar : Bar}
  {temp path : String} {c : Console} {w w₁ : Workspace} {tl : Timeline} {cs : List Chunk}

theorem build_single (hadd : o.add = [])
    (h : build ⟨[("0", src)], [0]⟩ t x o rate bar temp c w = .ok tl w₁) :
    ∃ ticks flags scope w₂ cs clips d,
      o.plan.ticks (o.frameRate.getD src.fps) = .ok ticks ∧
      Setup.evaluate ⟨src, x, true, o.frameRate.getD src.fps, bar, temp, c⟩ Script.Scope.initial
        o.edit w = .ok (flags, scope) w₂ ∧
      o.plan.chunks (o.frameRate.getD src.fps) ticks flags = .ok cs ∧
      Clip.ofChunks "0" 0 cs = .ok clips ∧ total cs = .ok d ∧
      tl.source? "0" = some src ∧ tl.tb = o.frameRate.getD src.fps ∧ tl.chunks = some cs ∧
      (tl.v, tl.a) = layersOf [clips] [src] := by
  have hlookup : [("0", src)].lookup (toString 0) = some src := rfl
  simp only [build, head?_cons, Option.bind_some, hlookup, run_bind_eq_ok,
    ofExcept_eq_ok, run_pure_eq_ok, hadd, mapM_nil] at h
  obtain ⟨ticks, _, ⟨hticks, rfl⟩, laid, w₂, hlaid, sources, w₃, hsources, -, _, ⟨-, rfl⟩, -, _,
    ⟨rfl, rfl⟩, rfl, rfl⟩ := h
  obtain ⟨src', flags, scope, w₄, cs, clips, d, rest, hsrc, heval, hcs, hclips, hd, hrest, rfl⟩ :=
    layInputs_cons hlaid
  obtain rfl := Option.some.inj (hlookup.symm.trans hsrc)
  rw [layInputs, run_pure_eq_ok] at hrest
  obtain ⟨rfl, -⟩ := hrest
  refine ⟨ticks, flags, scope, w₄, cs, clips, d, hticks, heval, hcs, hclips, hd,
    lookup_addSources hsources, rfl, ?_, ?_⟩
  · simp [withAdditions, merge_singleton]
  · simp only [withAdditions, filterMap_nil, append_nil]
    rfl

def chunkDocument (file : String) (chunks : List Json) : Json :=
  .obj [("version", .str "1.0.0"), ("source", .str file), ("chunks", .arr chunks)]

theorem toJson_eq_chunkDocument {js : List Json} (hchunks : tl.chunks = some cs)
    (hsrc : tl.source? "0" = some src) (hjs : cs.mapM ofChunk = .ok js) :
    tl.toJson "1.0" = .ok (chunkDocument src.fullPath js) := by
  have hfirst : tl.toJson "1.0" = tl.toChunkJson := rfl
  rw [hfirst, toChunkJson, hchunks]
  simp only [hsrc, hjs, ok_bind]
  rfl

theorem writeJson_ok {j : Json} (hj : tl.toJson "1.0" = .ok j) (hname : path.endsWith ".json")
    (hdir : w.tree.isDir (Path.dir (absolutePath path)))
    (hnew : ¬ w.tree.isDir (absolutePath path)) :
    tl.writeJson "1.0" path c w =
      .ok () { w with tree := w.tree.put (absolutePath path) (j.pretty 2 0).toUTF8 } := by
  simp only [writeJson, run_bind_eq_ok, check_eq_ok]
  refine ⟨j, w, ⟨hj, rfl⟩, ?_⟩
  simp only [hname, Bool.not_true, Bool.false_eq_true, if_false]
  exact writeText_ok _ hdir hnew

theorem readJson_chunkDocument {text file : String} {js : List Json} {ws : List WrittenChunk}
    {ds : List Chunk} (htext : readText path w = .ok text w)
    (hparse : parse text = .ok (chunkDocument file js))
    (hfile : w.tree.isFile (absolutePath file)) (hws : validate (.arr js) = .ok ws)
    (hload : Source.load file "0" t c w = .ok src w₁)
    (hds : ws.mapM toChunk = .ok ds) (htl : ofChunks src ds = .ok tl) :
    readJson path t c w = .ok tl w₁ := by
  have hversion : (chunkDocument file js).get? "version" = some (.str "1.0.0") := rfl
  have hparsed : Version.parse "1.0.0" = .ok ⟨1, 0, 0⟩ := rfl
  have hfirst : (⟨1, 0, 0⟩ : Version).isFirst = true := rfl
  have hjson : (parse text).mapError Fault.badJson = .ok (chunkDocument file js) := by
    rw [hparse]
    rfl
  have hrequire : requireFile (.str file) c w = .ok file w := by
    simp only [requireFile, isFile, run_bind_eq_ok]
    exact ⟨true, w, ⟨w, w, rfl, run_pure_eq_ok.2 ⟨hfile, rfl⟩⟩, rfl⟩
  simp only [readJson, run_bind_eq_ok, ofExcept_eq_ok, check_eq_ok]
  refine ⟨text, w, htext, _, w, ⟨hjson, rfl⟩, (), w, ⟨rfl, rfl⟩, ?_⟩
  rw [hversion]
  simp only [pure_bind, run_bind_eq_ok, check_eq_ok]
  refine ⟨_, w, ⟨hparsed, rfl⟩, ?_⟩
  rw [if_pos hfirst]
  simp only [run_bind_eq_ok, check_eq_ok]
  refine ⟨(), w, ⟨rfl, rfl⟩, file, w, hrequire, ws, w, ⟨hws, rfl⟩, src, w₁, hload, ?_, rfl⟩
  rw [hds, ok_bind, htl]

theorem ofChunks_ok {clips : List Clip} (h : Clip.ofChunks "0" 0 cs = .ok clips) :
    ofChunks src cs = .ok ⟨[("0", src)], src.fps, src.sampleRate, src.resolution, "#000",
      (layersOf [clips] [src]).1, (layersOf [clips] [src]).2, some cs⟩ := by
  rw [ofChunks, h, ok_bind]
  rfl

structure Agrees (t u : Timeline) : Prop where
  chunks : Option.Rel (Forall₂ Chunk.Agrees) t.chunks u.chunks
  v : Forall₂ (Forall₂ VisualItem.Agrees) t.v u.v
  a : Forall₂ (Forall₂ AudioClip.Agrees) t.a u.a

/-- A timeline of one input that is written as a list of chunks and read back is cut alike, but it
runs at the rate of its source. So the rate comes back exactly if no other one was asked for. -/
theorem readJson_writeJson (hadd : o.add = [])
    (hbuild : build ⟨[("0", src)], [0]⟩ t x o rate bar temp c w = .ok tl w₁)
    (hacc : ∀ cs, tl.chunks = some cs → Accepted cs)
    (hreload : ∀ j, tl.toJson "1.0" = .ok j → j.Reloads)
    (hfile : w₁.tree.isFile (absolutePath src.fullPath)) (hname : path.endsWith ".json")
    (hdir : w₁.tree.isDir (Path.dir (absolutePath path)))
    (hnew : ¬ w₁.tree.isDir (absolutePath path)) :
    ∃ w₂, tl.writeJson "1.0" path c w₁ = .ok () w₂ ∧
      ∀ src' w₃, Source.load src.fullPath "0" t c w₂ = .ok src' w₃ → src.SameStreams src' →
        ∃ tl', readJson path t c w₂ = .ok tl' w₃ ∧ tl.Agrees tl' ∧
          tl.tb = o.frameRate.getD src.fps ∧ tl'.tb = src.fps ∧
          (tl'.tb = tl.tb ↔ ∀ r, o.frameRate = some r → r = src.fps) := by
  obtain ⟨-, -, -, -, cs, clips, d, -, -, -, hclips, htotal, hsrc, htb, hchunks, hlayers⟩ :=
    build_single hadd hbuild
  have hlim := (hacc cs hchunks).hasLimits htotal
  obtain ⟨js, ws, hjs, hws⟩ := hacc cs hchunks
  have hreads := ((validate_ofChunks hjs).1 hws).2.2.2
  have hj := toJson_eq_chunkDocument hchunks hsrc hjs
  refine ⟨_, writeJson_ok hj hname hdir hnew, ?_⟩
  intro src' w₃ hload hsame
  obtain ⟨ds, hds, hagree⟩ := toChunk_agrees hreads hlim
  obtain ⟨clips', hclips', hagree'⟩ :=
    Clip.ofChunks_agrees hagree (fun c hc => (hlim c hc).hasPace) hclips
  obtain ⟨hv, ha⟩ := layersOf_agrees hagree' hsame
  rw [← hlayers] at hv ha
  refine ⟨_, readJson_chunkDocument (readText_ok ?_) (hreload _ hj)
    (Tree.isFile_put _ _ hfile) hws hload hds (ofChunks_ok hclips'), ⟨?_, hv, ha⟩, htb, hsame.fps,
    ?_⟩
  · rw [Tree.read?_put, if_pos rfl]
  · rw [hchunks]
    exact .some hagree
  · rw [hsame.fps, htb]
    cases o.frameRate with
    | none => simp
    | some r => simp [eq_comm]

end Timeline

def recording : Source where
  path := "a.mp3"
  label := "0"
  bitrate := .null
  duration := .str ""
  description := .null
  videos := []
  audios := [⟨"mp3", 48000, none, .null, .null⟩]
  subtitles := []

def studio : Workspace :=
  let audio : Json := .obj [("codec_type", .str "audio"), ("codec_name", .str "mp3"),
    ("sample_rate", .str "48000")]
  let probe : Json := .obj [("streams", .arr [audio]), ("format", .obj [])]
  { emptyWorkspace with
    tree := ⟨[("/work/a.mp3", ByteArray.empty)], ["/work"]⟩
    media := [("/work/a.mp3", ⟨none, probe.compact, [], [], []⟩)] }

def halfRate (flags : String) : Options where
  edit := flags
  frameRate := some 15
  margin := (.ticks 0, .ticks 0)
  minClip := .ticks 0
  minCut := .ticks 0
  silentSpeed := 99999
  videoSpeed := 1

def cutRecording (o : Options) : Session Timeline :=
  build ⟨[("0", recording)], [0]⟩ quietSetup.extractor.transcoder quietSetup.extractor o
    48000 quietSetup.bar quietSetup.temp quietSetup.console

def firstTick : List Chunk := [⟨0, 1, 1⟩, ⟨1, 3, 99999⟩]

theorem accepted_firstTick : Accepted firstTick := by
  have htiles : Tiles 0 3 firstTick := ⟨rfl, by decide, rfl, by decide, rfl⟩
  refine htiles.accepted (by simp [firstTick]) ?_
  simp only [firstTick, forall_mem_cons, not_mem_nil, false_imp_iff, implies_true,
    and_true]
  exact ⟨⟨⟨.int 1, rfl⟩, 1, rfl, by norm_num, by norm_num⟩,
    ⟨⟨.int 99999, rfl⟩, 99999, rfl, by norm_num, le_rfl⟩⟩

theorem chunks_cutRecording {tl : Timeline} {w : Workspace}
    (h : cutRecording (halfRate "(boolarr 1 0 0)") studio = .ok tl w) :
    tl.source? "0" = some recording ∧ tl.chunks = some firstTick := by
  obtain ⟨ticks, flags, scope, w₂, cs, -, -, hticks, heval, hcs, -, -, hsrc, -, hchunks, -⟩ :=
    build_single rfl h
  have hends : ((Setup.evaluate ⟨recording, quietSetup.extractor, true, 15, quietSetup.bar,
      quietSetup.temp, quietSetup.console⟩ Script.Scope.initial "(boolarr 1 0 0)").run'
      studio).map Prod.fst = some [true, false, false] := by decide +kernel
  obtain ⟨⟨flags', scope'⟩, hrun, rfl⟩ := Option.map_eq_some_iff.1 hends
  obtain ⟨w₃, hw₃⟩ := run'_eq_some.1 hrun
  cases heval.symm.trans hw₃
  have hzero : (halfRate "(boolarr 1 0 0)").plan.ticks 15 = .ok ⟨0, 0, 0, 0⟩ := rfl
  obtain rfl := Except.ok.inj (hticks.symm.trans hzero)
  have hfirst : (halfRate "(boolarr 1 0 0)").plan.chunks 15 ⟨0, 0, 0, 0⟩ [true, false, false] =
      .ok firstTick := rfl
  obtain rfl := Except.ok.inj (hcs.symm.trans hfirst)
  exact ⟨hsrc, hchunks⟩

def recordingFacts : Session ((Bool × Bool × Bool) × Nat × Nat × Rat) := do
  let tl ← cutRecording (halfRate "(boolarr 1 0 0)")
  let w ← get
  tl.writeJson "1.0" "a.json" quietSetup.console
  let src ← Source.load recording.fullPath "0" quietSetup.extractor.transcoder quietSetup.console
  return ((w.tree.isFile (absolutePath recording.fullPath),
    w.tree.isDir (Path.dir (absolutePath "a.json")), w.tree.isDir (absolutePath "a.json")),
    src.videos.length, src.audios.length, src.fps)

theorem readJson_writeJson_half_rate :
    ∃ tl w₁ w₂ tl' w₃, cutRecording (halfRate "(boolarr 1 0 0)") studio = .ok tl w₁ ∧
      tl.writeJson "1.0" "a.json" quietSetup.console w₁ = .ok () w₂ ∧
      readJson "a.json" quietSetup.extractor.transcoder quietSetup.console w₂ =
        .ok tl' w₃ ∧ tl.Agrees tl' ∧ tl.tb = 15 ∧ tl'.tb = 30 := by
  have hends : recordingFacts.run' studio = some ((true, true, false), 0, 1, 30) := by
    decide +kernel
  obtain ⟨w₄, hrun⟩ := run'_eq_some.1 hends
  simp only [recordingFacts, run_bind_eq_ok, run_pure_eq_ok, Prod.mk.injEq] at hrun
  obtain ⟨tl, w₁, htl, _, w₁', hget, _, w₂, hwrite, src', w₃, hload,
    ⟨⟨hfile, hdir, hnew⟩, hvideos, haudios, hfps⟩, -⟩ := hrun
  cases hget
  obtain ⟨hsrc, hchunks⟩ := chunks_cutRecording htl
  have hjs : firstTick.mapM ofChunk =
      .ok [.arr [.int 0, .int 1, .int 1], .arr [.int 1, .int 3, .int 99999]] := rfl
  have hjson := toJson_eq_chunkDocument hchunks hsrc hjs
  have hacc : ∀ cs, tl.chunks = some cs → Accepted cs := by
    intro cs hcs
    obtain rfl := Option.some.inj (hchunks.symm.trans hcs)
    exact accepted_firstTick
  have hreload : ∀ j, tl.toJson "1.0" = .ok j → j.Reloads := by
    intro j hj
    obtain rfl := Except.ok.inj (hjson.symm.trans hj)
    decide +kernel
  obtain ⟨w₂', hwrite', hread⟩ := @readJson_writeJson recording _ _ _ _ _ _ "a.json" _ _ _
    tl rfl htl hacc hreload hfile (by decide +kernel) hdir (by simp [hnew])
  cases hwrite.symm.trans hwrite'
  obtain ⟨tl', hread', hagree, htb, htb', -⟩ := hread src' w₃ hload ⟨hvideos, haudios, hfps⟩
  exact ⟨tl, w₁, w₂, tl', w₃, htl, hwrite, hread', hagree, htb, htb'⟩

theorem readJson_writeJson_other_rate :
    (do let tl ← cutRecording (halfRate "(boolarr 1 1)")
        tl.writeJson "1.0" "a.json" quietSetup.console
        let tl' ← readJson "a.json" quietSetup.extractor.transcoder quietSetup.console
        return (tl.tb, tl'.tb) : Session (Rat × Rat)).run' studio = some (15, 30) := by
  decide +kernel

end Jumpcut
