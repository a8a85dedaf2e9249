import Jumpcut.Proofs.ChunkLaws
import Mathlib.Algebra.Order.BigOperators.Group.List

/-!
Where clips lie on the timeline and in their source. The kept chunks are scheduled at exact times;
a chunk makes a clip unless its time rounds to the tick of the clip before it.
-/
namespace Jumpcut

open Outcome
open List hiding span length

namespace Chunk

def HasPace (c : Chunk) : Prop := ∃ q, c.speed.toRat? = some q ∧ 0 < q

def span (c : Chunk) : Rat := c.length / c.speed.toRat?.getD 0

def kept (cs : List Chunk) : List Chunk := cs.filter fun c => !c.isCut

/-- The kept chunks, each with the exact time at which it begins. -/
def schedule (start : Rat) : List Chunk → List (Rat × Chunk)
  | [] => []
  | c :: cs => if c.isCut then schedule start cs else (start, c) :: schedule (start + c.span) cs

variable {c : Chunk} {cs : List Chunk} {before after : List (Rat × Chunk)}

theorem HasPace.duration_eq (h : c.HasPace) : duration c.length c.speed = .ok c.span := by
  obtain ⟨q, hq, hpos⟩ := h
  rw [duration_eq_ok]
  exact ⟨q, hq, hpos.ne', by simp [span, hq]⟩

theorem HasPace.span_nonneg (h : c.HasPace) (hlt : c.start < c.stop) : 0 ≤ c.span := by
  obtain ⟨q, hq, hpos⟩ := h
  have hlen : (0 : Rat) ≤ c.length := by exact_mod_cast (Int.sub_pos_of_lt hlt).le
  rw [span, hq]
  exact div_nonneg hlen hpos.le

theorem isCut_iff {q : Rat} (h : c.speed.toRat? = some q) : c.isCut ↔ q = 99999 :=
  Number.eqv_iff_of_toRat? h (Number.toRat?_ofNat 99999)

def Plain (c : Chunk) : Prop := c.speed.toRat? = some 1 ∨ c.speed.toRat? = some 99999

theorem Plain.hasPace (h : c.Plain) : c.HasPace := by
  rcases h with h | h
  · exact ⟨1, h, by norm_num⟩
  · exact ⟨99999, h, by norm_num⟩

theorem Plain.span_eq (h : c.Plain) (hcut : ¬ c.isCut) : c.span = c.length := by
  rcases h with h | h
  · simp [span, h]
  · exact absurd ((isCut_iff h).2 rfl) hcut

theorem Plain.add_span (h : c.Plain) (hcut : ¬ c.isCut) (n : Int) :
    (n : Rat) + c.span = (n + c.length : Int) := by
  rw [h.span_eq hcut]
  push_cast
  rfl

theorem map_snd_schedule (start : Rat) (cs : List Chunk) :
    (schedule start cs).map Prod.snd = kept cs := by
  induction cs generalizing start with
  | nil => rfl
  | cons c cs ih => cases hc : c.isCut <;> simp [schedule, kept, hc, ih]

theorem mem_of_mem_schedule {start : Rat} {p : Rat × Chunk} (h : p ∈ schedule start cs) :
    p.2 ∈ cs := by
  have hmem : p.2 ∈ kept cs := by
    rw [← map_snd_schedule start cs]
    exact mem_map_of_mem h
  exact (mem_filter.1 hmem).1

theorem total_eq_sum (h : ∀ c ∈ cs, c.HasPace) : total cs = .ok ((kept cs).map span).sum := by
  induction cs with
  | nil => rfl
  | cons c cs ih =>
    have ih' := ih fun d hd => h d (mem_cons_of_mem c hd)
    rw [total_cons, ih', lasting]
    cases hc : c.isCut with
    | true => simp [kept, hc]
    | false => simp [kept, hc, (h c mem_cons_self).duration_eq]

theorem time_of_schedule {start s : Rat} (h : schedule start cs = before ++ (s, c) :: after) :
    s = start + (before.map fun p => p.2.span).sum := by
  induction cs generalizing start before with
  | nil => simp [schedule] at h
  | cons d ds ih =>
    rw [schedule] at h
    split at h
    · exact ih h
    · cases before with
      | nil =>
        simp only [nil_append, List.cons.injEq, Prod.mk.injEq] at h
        simp [h.1.1]
      | cons p ps =>
        simp only [cons_append, List.cons.injEq] at h
        obtain ⟨rfl, htail⟩ := h
        rw [ih htail]
        simp [add_assoc]

theorem sum_spans_of_schedule {s : Rat} (h : schedule 0 cs = before ++ (s, c) :: after) :
    ((kept cs).map span).sum = s + c.span + (after.map fun p => p.2.span).sum := by
  have htime := time_of_schedule h
  rw [← map_snd_schedule 0 cs, h, htime]
  simp only [map_append, map_cons, map_map, sum_append, sum_cons,
    Function.comp_def]
  ring

end Chunk

namespace Clip

open Chunk

def pick (src : String) (first : Bool) (last : Option Int) : List (Rat × Chunk) → List Clip
  | [] => []
  | (s, c) :: ps =>
    if last = some (Exact.round s) then pick src false last ps
    else
      ⟨Exact.round s, c.length, if first then c.start else c.start + 1, c.speed, src⟩ ::
        pick src false (some (Exact.round s)) ps

variable {cs : List Chunk}

theorem ofChunksFrom_eq_pick {src : String} {first : Bool} {last : Option Int} {start : Rat}
    (h : ∀ c ∈ cs, c.HasPace) :
    ofChunksFrom src first last start cs = .ok (pick src first last (schedule start cs)) := by
  induction cs generalizing first last start with
  | nil => rfl
  | cons c cs ih =>
    have ih' := fun first last start => @ih first last start fun d hd =>
      h d (mem_cons_of_mem c hd)
    rw [ofChunksFrom, schedule]
    split
    · exact ih' first last start
    · simp only [(h c mem_cons_self).duration_eq, ok_bind, pick]
      by_cases hlast : last = some (Exact.round start)
      · simp only [hlast, if_true]
        exact ih' _ _ _
      · simp [hlast, ih']

/-- The chunk `c` makes the last clip of a schedule: it begins in another tick than the chunk
before it, and the chunks after it begin in its tick and are left out. -/
structure MakesLast (ps before : List (Rat × Chunk)) (s : Rat) (c : Chunk)
    (after : List (Rat × Chunk)) : Prop where
  split : ps = before ++ (s, c) :: after
  fresh : ∀ p, before.getLast? = some p → Exact.round p.1 ≠ Exact.round s
  hidden : ∀ p ∈ after, Exact.round p.1 = Exact.round s

theorem MakesLast.cons {ps before after : List (Rat × Chunk)} {s : Rat} {c : Chunk}
    {p : Rat × Chunk} (h : MakesLast ps before s c after)
    (hp : before = [] → Exact.round p.1 ≠ Exact.round s) :
    MakesLast (p :: ps) (p :: before) s c after where
  split := by rw [h.split, cons_append]
  fresh := by
    intro r hr
    cases before with
    | nil =>
      cases hr
      exact hp rfl
    | cons b bs => exact h.fresh r (by simpa using hr)
  hidden := h.hidden

theorem pick_last (src : String) (first : Bool) (last : Option Int) (ps : List (Rat × Chunk)) :
    (pick src first last ps = [] ∧ ∀ p ∈ ps, last = some (Exact.round p.1)) ∨
      ∃ before s c after o, MakesLast ps before s c after ∧
        (before = [] → last ≠ some (Exact.round s)) ∧
        (pick src first last ps).getLast? = some ⟨Exact.round s, c.length, o, c.speed, src⟩ := by
  induction ps generalizing first last with
  | nil => exact .inl ⟨rfl, by simp⟩
  | cons p ps ih =>
    obtain ⟨s, c⟩ := p
    rw [pick]
    by_cases hlast : last = some (Exact.round s)
    · rw [if_pos hlast]
      rcases ih false last with ⟨hnil, hall⟩ | ⟨before, t, d, after, o, hmakes, hnew, hget⟩
      · exact .inl ⟨hnil, by simpa [hlast] using hall⟩
      · refine .inr ⟨(s, c) :: before, t, d, after, o, hmakes.cons ?_, by simp, hget⟩
        intro hb heq
        exact hnew hb (by rw [hlast, heq])
    · rw [if_neg hlast]
      rcases ih false (some (Exact.round s)) with
        ⟨hnil, hall⟩ | ⟨before, t, d, after, o, hmakes, hnew, hget⟩
      · refine .inr ⟨[], s, c, ps, _, ⟨rfl, by simp, ?_⟩, fun _ => hlast, by rw [hnil]; rfl⟩
        intro p hp
        exact (Option.some.inj (hall p hp)).symm
      · refine .inr ⟨(s, c) :: before, t, d, after, o, hmakes.cons ?_, by simp, ?_⟩
        · intro hb heq
          exact hnew hb (by rw [heq])
        · rw [getLast?_cons, hget]
          rfl

/-- The last clip ends as far from the chunks' length as its start was rounded, less what the
chunks last that are left out behind it. It ends within a tick of that length exactly if these are
short enough. -/
theorem lastClip_near_total_iff (src : String) (cs : List Chunk)
    (hlen : ∀ c ∈ cs, c.start < c.stop) (hpace : ∀ c ∈ cs, c.HasPace) (hkept : kept cs ≠ []) :
    ∃ clips clip q length before s c after,
      ofChunks src 0 cs = .ok clips ∧ clips.getLast? = some clip ∧
      clip.speed.toRat? = some q ∧ total cs = .ok length ∧
      MakesLast (schedule 0 cs) before s c after ∧
      clip.start + clip.dur / q - length =
        (Exact.round s - s) - (after.map fun p => p.2.span).sum ∧
      (|clip.start + clip.dur / q - length| ≤ 1 ↔
        (after.map fun p => p.2.span).sum ≤ 1 + (Exact.round s - s)) := by
  have hclips : ofChunks src 0 cs = .ok (pick src true none (schedule 0 cs)) :=
    ofChunksFrom_eq_pick hpace
  rcases pick_last src true none (schedule 0 cs) with
    ⟨-, hall⟩ | ⟨before, s, c, after, o, hmakes, -, hget⟩
  · refine absurd ?_ hkept
    rw [← map_snd_schedule 0 cs, List.eq_nil_iff_forall_not_mem.2 fun p hp => nomatch hall p hp]
    rfl
  have hmem : ∀ p ∈ (s, c) :: after, p.2 ∈ cs := by
    intro p hp
    have hp' : p ∈ schedule 0 cs := by
      rw [hmakes.split]
      exact List.mem_append_right before hp
    exact mem_of_mem_schedule hp'
  obtain ⟨q, hq, hpos⟩ := hpace c (hmem (s, c) List.mem_cons_self)
  have hleft : 0 ≤ (after.map fun p => p.2.span).sum := by
    apply List.sum_nonneg
    intro d hd
    obtain ⟨p, hp, rfl⟩ := List.mem_map.1 hd
    have hp' := hmem p (List.mem_cons_of_mem _ hp)
    exact (hpace _ hp').span_nonneg (hlen _ hp')
  have hshift : (Exact.round s : Rat) + c.length / q - ((kept cs).map span).sum =
      (Exact.round s - s) - (after.map fun p => p.2.span).sum := by
    have hspan : c.span = c.length / q := by simp [span, hq]
    rw [sum_spans_of_schedule hmakes.split, hspan]
    ring
  refine ⟨_, _, q, _, before, s, c, after, hclips, hget, hq, total_eq_sum hpace, hmakes, hshift, ?_⟩
  rw [hshift, abs_le]
  have hround := abs_le.1 (Exact.abs_round_sub_le s)
  constructor
  · rintro ⟨hlo, -⟩
    linarith
  · intro h
    constructor <;> linarith

theorem lastClip_near_total_iff_three_chunks :
    kept [⟨0, 4, 2⟩, ⟨4, 7, 99999⟩, ⟨7, 10, 1⟩] ≠ [] ∧
      ∃ clips clip, ofChunks "0" 0 [⟨0, 4, 2⟩, ⟨4, 7, 99999⟩, ⟨7, 10, 1⟩] = .ok clips ∧
        clips.getLast? = some clip := by
  have hkept : kept [⟨0, 4, 2⟩, ⟨4, 7, 99999⟩, ⟨7, 10, 1⟩] ≠ [] := by decide +kernel
  obtain ⟨clips, clip, -, -, -, -, -, -, hclips, hget, -⟩ :=
    lastClip_near_total_iff "0" [⟨0, 4, 2⟩, ⟨4, 7, 99999⟩, ⟨7, 10, 1⟩] (by simp)
      (by simp [HasPace]) hkept
  exact ⟨hkept, clips, clip, hclips, hget⟩

theorem lastClip_far_from_total :
    (ofChunks "0" 0 [⟨0, 1, 10⟩, ⟨1, 101, 1⟩]).map
        (fun clips => clips.getLast?.map fun c => (c.start, c.dur, c.speed.toRat?)) =
      .ok (some (0, 1, some 10)) ∧
    total [⟨0, 1, 10⟩, ⟨1, 101, 1⟩] = .ok (1001 / 10) ∧
    ¬ |(0 : Rat) + 1 / 10 - 1001 / 10| ≤ 1 := by
  refine ⟨by decide +kernel, by decide +kernel, by decide +kernel⟩

def interval (c : Clip) : Int × Int := (c.offset, c.offset + c.dur)

def Shows (c : Clip) (tick : Int) : Prop := c.interval.1 ≤ tick ∧ tick < c.interval.2

instance (c : Clip) (tick : Int) : Decidable (c.Shows tick) := inferInstanceAs (Decidable (_ ∧ _))

/-- The intervals that clips of these chunks show: of all but the first, one tick too late. -/
def lateIntervals : List Chunk → List (Int × Int)
  | [] => []
  | c :: cs => (c.start, c.stop) :: cs.map fun d => (d.start + 1, d.stop + 1)

theorem intervals_pick_rest {src : String} {last : Option Int} {ps : List (Rat × Chunk)}
    (h : ps.Pairwise fun p r => Exact.round p.1 ≠ Exact.round r.1)
    (hlast : ∀ p ∈ ps, last ≠ some (Exact.round p.1)) :
    (pick src false last ps).map interval = ps.map fun p => (p.2.start + 1, p.2.stop + 1) := by
  induction ps generalizing last with
  | nil => rfl
  | cons p ps ih =>
    obtain ⟨s, c⟩ := p
    obtain ⟨hhead, htail⟩ := pairwise_cons.1 h
    have ih' := @ih (some (Exact.round s)) htail fun r hr heq => hhead r hr (Option.some.inj heq)
    have hnew : last ≠ some (Exact.round s) := hlast (s, c) mem_cons_self
    simp only [pick, hnew, if_false, map_cons, ih']
    simp [interval, length]
    ring

theorem intervals_pick {src : String} {ps : List (Rat × Chunk)}
    (h : ps.Pairwise fun p r => Exact.round p.1 ≠ Exact.round r.1) :
    (pick src true none ps).map interval = lateIntervals (ps.map Prod.snd) := by
  cases ps with
  | nil => rfl
  | cons p ps =>
    obtain ⟨s, c⟩ := p
    obtain ⟨hhead, htail⟩ := pairwise_cons.1 h
    have hrest := @intervals_pick_rest src (some (Exact.round s)) ps htail
      fun r hr heq => hhead r hr (Option.some.inj heq)
    simp [pick, lateIntervals, interval, length, hrest, Function.comp_def]

theorem whole_of_mem_schedule {n : Int} (hlen : ∀ c ∈ cs, c.start < c.stop)
    (hplain : ∀ c ∈ cs, c.Plain) {p : Rat × Chunk} (hp : p ∈ schedule n cs) :
    ∃ m : Int, n ≤ m ∧ p.1 = m := by
  induction cs generalizing n with
  | nil => simp [schedule] at hp
  | cons c cs ih =>
    have ih' := fun n => @ih n (fun d hd => hlen d (mem_cons_of_mem c hd))
      (fun d hd => hplain d (mem_cons_of_mem c hd))
    rw [schedule] at hp
    split at hp
    · exact ih' n hp
    · next hcut =>
      rcases mem_cons.1 hp with rfl | hp
      · exact ⟨n, le_refl n, rfl⟩
      · rw [(hplain c mem_cons_self).add_span hcut] at hp
        obtain ⟨m, hm, heq⟩ := ih' (n + c.length) hp
        have := hlen c mem_cons_self
        refine ⟨m, ?_, heq⟩
        simp only [length] at hm
        omega

theorem schedule_apart {n : Int} (hlen : ∀ c ∈ cs, c.start < c.stop) (hplain : ∀ c ∈ cs, c.Plain) :
    (schedule n cs).Pairwise fun p r => Exact.round p.1 ≠ Exact.round r.1 := by
  induction cs generalizing n with
  | nil => exact .nil
  | cons c cs ih =>
    have hlen' : ∀ d ∈ cs, d.start < d.stop := fun d hd => hlen d (mem_cons_of_mem c hd)
    have hplain' : ∀ d ∈ cs, d.Plain := fun d hd => hplain d (mem_cons_of_mem c hd)
    rw [schedule]
    split
    · exact ih hlen' hplain'
    · next hcut =>
      rw [(hplain c mem_cons_self).add_span hcut]
      refine .cons ?_ (ih hlen' hplain')
      intro p hp
      obtain ⟨m, hm, heq⟩ := whole_of_mem_schedule hlen' hplain' hp
      have := hlen c mem_cons_self
      rw [heq, Exact.round_intCast, Exact.round_intCast]
      simp only [length] at hm
      omega

theorem countP_shows (clips : List Clip) (t : Int) :
    clips.countP (fun c => c.Shows t) =
      (clips.map interval).countP fun i => decide (i.1 ≤ t ∧ t < i.2) := by
  rw [countP_map]
  rfl

theorem not_shown_second {c d : Chunk} (hlt : ∀ e ∈ c :: d :: cs, e.start < e.stop)
    (h : (c :: d :: cs).Pairwise fun c d => c.stop ≤ d.start) :
    (lateIntervals (c :: d :: cs)).countP (fun i => decide (i.1 ≤ d.start ∧ d.start < i.2)) = 0 := by
  obtain ⟨hc, hd⟩ := pairwise_cons.1 h
  have hcd := hc d mem_cons_self
  have hdlt := hlt d (by simp)
  rw [countP_eq_zero]
  intro i hi
  simp only [lateIntervals, map_cons, mem_cons, mem_map] at hi
  rcases hi with rfl | rfl | ⟨e, he, rfl⟩
  · simp only [decide_eq_true_eq]
    omega
  · simp
  · have hde := (pairwise_cons.1 hd).1 e he
    simp only [decide_eq_true_eq]
    omega

@[simp] theorem length_lateIntervals (cs : List Chunk) : (lateIntervals cs).length = cs.length := by
  cases cs <;> simp [lateIntervals]

theorem lateIntervals_eq_iff (cs : List Chunk) :
    (lateIntervals cs = cs.map fun c => (c.start, c.stop)) ↔ cs.length ≤ 1 := by
  match cs with
  | [] => simp [lateIntervals]
  | [c] => simp [lateIntervals]
  | c :: d :: cs => simp [lateIntervals]

theorem shown_once_iff (hlt : ∀ c ∈ cs, c.start < c.stop)
    (h : cs.Pairwise fun c d => c.stop ≤ d.start) :
    (∀ t, (lateIntervals cs).countP (fun i => decide (i.1 ≤ t ∧ t < i.2)) =
      if ∃ c ∈ cs, c.Holds t then 1 else 0) ↔ cs.length ≤ 1 := by
  match cs with
  | [] => simp [lateIntervals]
  | [c] => simp [lateIntervals, Holds, countP_cons]
  | c :: d :: cs =>
    constructor
    · intro hall
      have hd : ∃ e ∈ c :: d :: cs, e.Holds d.start :=
        ⟨d, by simp, le_refl d.start, hlt d (by simp)⟩
      have hone := hall d.start
      rw [not_shown_second hlt h, if_pos hd] at hone
      cases hone
    · intro hle
      simp at hle

/-- Without changes of speed every kept chunk makes one clip, but of all clips except the first
the source begins one tick late. So nothing is lost or shifted exactly if at most one chunk is
kept. -/
theorem clips_show_kept_iff (src : String) {n : Int} (cs : List Chunk) (htiles : Tiles 0 n cs)
    (hplain : ∀ c ∈ cs, c.Plain) :
    ∃ clips, ofChunks src 0 cs = .ok clips ∧
      clips.length = (kept cs).length ∧
      clips.map interval = lateIntervals (kept cs) ∧
      (clips.map interval = ((kept cs).map fun c => (c.start, c.stop)) ↔ (kept cs).length ≤ 1) ∧
      ((∀ t, clips.countP (fun c => c.Shows t) = if ∃ c ∈ kept cs, c.Holds t then 1 else 0) ↔
        (kept cs).length ≤ 1) := by
  have hlt : ∀ c ∈ cs, c.start < c.stop := fun c hc => (htiles.start_le hc).2
  have hclips : ofChunks src 0 cs = .ok (pick src true none (schedule 0 cs)) :=
    ofChunksFrom_eq_pick fun c hc => (hplain c hc).hasPace
  have hintervals : (pick src true none (schedule 0 cs)).map interval =
      lateIntervals (kept cs) := by
    rw [← map_snd_schedule 0 cs]
    exact intervals_pick (schedule_apart (n := 0) hlt hplain)
  have hlength := congrArg List.length hintervals
  have hkeptlt : ∀ c ∈ kept cs, c.start < c.stop := fun c hc => hlt c (List.mem_filter.1 hc).1
  have hordered : (kept cs).Pairwise fun c d => c.stop ≤ d.start := htiles.ordered.filter _
  refine ⟨_, hclips, ?_, hintervals, ?_, ?_⟩
  · simpa using hlength
  · rw [hintervals]
    exact lateIntervals_eq_iff _
  · simp only [countP_shows, hintervals]
    exact shown_once_iff hkeptlt hordered

theorem clips_show_kept_iff_two_cuts :
    Tiles 0 30 [⟨0, 10, 99999⟩, ⟨10, 20, 1⟩, ⟨20, 30, 99999⟩] ∧
      ∃ clips, ofChunks "0" 0 [⟨0, 10, 99999⟩, ⟨10, 20, 1⟩, ⟨20, 30, 99999⟩] = .ok clips ∧
        clips.map interval = lateIntervals (kept [⟨0, 10, 99999⟩, ⟨10, 20, 1⟩, ⟨20, 30, 99999⟩]) := by
  have htiles : Tiles 0 30 [⟨0, 10, 99999⟩, ⟨10, 20, 1⟩, ⟨20, 30, 99999⟩] := by simp [Tiles]
  obtain ⟨clips, hclips, -, hintervals, -⟩ :=
    clips_show_kept_iff "0" [⟨0, 10, 99999⟩, ⟨10, 20, 1⟩, ⟨20, 30, 99999⟩] htiles
      (by simp [Plain])
  exact ⟨htiles, clips, hclips, hintervals⟩

theorem second_clip_late :
    Tiles 0 30 [⟨0, 10, 1⟩, ⟨10, 20, 99999⟩, ⟨20, 30, 1⟩] ∧
    (kept [⟨0, 10, 1⟩, ⟨10, 20, 99999⟩, ⟨20, 30, 1⟩]).map (fun c => (c.start, c.stop)) =
      [(0, 10), (20, 30)] ∧
    (ofChunks "0" 0 [⟨0, 10, 1⟩, ⟨10, 20, 99999⟩, ⟨20, 30, 1⟩]).map (·.map interval) =
      .ok [(0, 10), (21, 31)] :=
  ⟨by simp [Tiles], by decide +kernel, by decide +kernel⟩

end Clip

end Jumpcut
