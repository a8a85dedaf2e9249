import Jumpcut.Proofs.CacheLaws
import Jumpcut.Proofs.LoudnessLaws
import Mathlib.Data.Nat.Size

namespace Jumpcut

open Outcome List Comparison Cache

theorem Picture.differing_le {α : Type} [BEq α] (xs ys : List α) : differing xs ys ≤ xs.length := by
  calc differing xs ys ≤ (xs.zip ys).length := countP_le_length
    _ ≤ xs.length := by rw [length_zip]; exact Nat.min_le_left _ _

def Comparison.Compares (c : Comparison) (frames : List Frame) : Prop :=
  ∀ f ∈ frames, ∀ g ∈ frames, ∃ x, c.measure f.picture g.picture = .ok x

theorem Comparison.Compares.tail {c : Comparison} {f : Frame} {frames : List Frame}
    (h : c.Compares (f :: frames)) : c.Compares frames :=
  fun g hg k hk => h g (.tail _ hg) k (.tail _ hk)

theorem Comparison.compares_colors (frames : List Frame) : colors.Compares frames :=
  fun _ _ _ _ => ⟨_, rfl⟩

theorem Comparison.compares_brightness {view : Picture → List Nat} {pixels : Int} (h : pixels ≠ 0)
    {frames : List Frame} (hview : ∀ f ∈ frames, (view f.picture).length < 2 ^ 64) :
    (brightness view pixels).Compares frames := by
  intro f hf g _
  have hcount := Picture.differing_le (view f.picture) (view g.picture)
  generalize hn : Picture.differing (view f.picture) (view g.picture) = n at hcount
  have hle : |((n : Int) / pixels : Rat)| ≤ Exact.largest := by
    have hone : (1 : Rat) ≤ |(pixels : Rat)| := by exact_mod_cast Int.one_le_abs h
    have hlt := hview f hf
    calc |((n : Int) / pixels : Rat)| = |((n : Int) : Rat)| / |(pixels : Rat)| := abs_div _ _
      _ ≤ |((n : Int) : Rat)| := div_le_self (abs_nonneg _) hone
      _ ≤ Exact.largest := Loudness.intCast_le_largest (by rw [Int.natAbs_natCast]; omega)
  obtain ⟨x, hx, -⟩ := Number.nearestFloat_ok hle
  refine ⟨.float x, ?_⟩
  rw [measure, hn, Number.div, if_neg h, hx]
  rfl

namespace Sweep

variable {c : Comparison} {u t : Nat}

/-- The cells after as few doublings as give a tick a cell of its own. -/
def roomFor (tick : Nat) : Nat := initialSize * 2 ^ (tick / initialSize).size

theorem div_lt_two_pow {j : Nat} : t / initialSize < 2 ^ j ↔ t < initialSize * 2 ^ j := by
  rw [Nat.div_lt_iff_lt_mul (by decide), Nat.mul_comm]

theorem roomFor_of_lt (h : u ≤ t) (hlt : t < roomFor u) : roomFor t = roomFor u := by
  have hle : (t / initialSize).size ≤ (u / initialSize).size := Nat.size_le.2 (div_lt_two_pow.2 hlt)
  have hge : (u / initialSize).size ≤ (t / initialSize).size :=
    Nat.size_le_size (Nat.div_le_div_right h)
  rw [roomFor, roomFor, hle.antisymm hge]

theorem roomFor_of_le (h : roomFor u ≤ t) (hlt : t < 2 * roomFor u) :
    roomFor t = 2 * roomFor u := by
  have hdouble : 2 * roomFor u = initialSize * 2 ^ ((u / initialSize).size + 1) := by
    rw [roomFor]
    ring
  have hle : (t / initialSize).size ≤ (u / initialSize).size + 1 :=
    Nat.size_le.2 (div_lt_two_pow.2 (hdouble ▸ hlt))
  have hge : (u / initialSize).size < (t / initialSize).size := by
    rw [Nat.lt_size, ← Nat.not_lt, div_lt_two_pow]
    exact Nat.not_lt.2 h
  rw [hdouble, roomFor, Nat.le_antisymm hle hge]

theorem roomFor_min (t : Nat) :
    roomFor (min t initialSize) = if initialSize ≤ t then 2 * initialSize else initialSize := by
  split
  · next h =>
    rw [Nat.min_eq_right h]
    decide
  · next h =>
    rw [Nat.min_eq_left (by omega), roomFor, Nat.div_eq_of_lt (by omega)]
    rfl

theorem length_zero (kind : LevelKind) (n : Nat) : (Levels.zero kind n).values.length = n := by
  simp [Levels.zero]

theorem length_grow (kind : LevelKind) (t : Nat) (cells : List Number) :
    (grow kind t cells).length = if cells.length ≤ t then 2 * cells.length else cells.length := by
  rw [grow]
  by_cases h : cells.length ≤ t
  · rw [if_pos (by omega), if_pos h, length_append, length_zero]
    omega
  · rw [if_neg (by omega), if_neg h]

theorem put_eq (cells : List Number) (t : Nat) (x : Number) :
    put cells t x = if t < cells.length then .ok (cells.set t x) else .error .outOfRange := by
  have hindex : (if (t : Int) < 0 then (t : Int) + cells.length else t) = t := if_neg (by omega)
  simp only [put, hindex, Int.toNat_natCast]
  by_cases h : t < cells.length
  · rw [if_pos h, if_pos (by omega)]
  · rw [if_neg h, if_neg (by omega)]

/-- Each frame but the first lies before the double of the room for the one before it. For the
first frame the cells are doubled at most once. -/
def InReach : List Nat → Prop
  | [] => True
  | t :: ts => (min t initialSize :: ts).IsChain fun i j => j < 2 * roomFor i

instance : DecidablePred InReach
  | [] => .isTrue trivial
  | t :: ts => inferInstanceAs (Decidable ((min t initialSize :: ts).IsChain _))

example : InReach [0, 2047, 4095] ∧ ¬ InReach [0, 2048] ∧ ¬ InReach [5000, 5000] := by decide

section Add

variable {s : Sweep} {p q : Picture} {x : Number}

theorem add_first (h : s.previous = none) :
    s.add c t q = .ok ⟨grow c.kind t s.cells, t, some q⟩ := by
  rw [add, h]
  rfl

section

variable (h : s.previous = some p) (hx : c.measure p q = .ok x)

include h hx

theorem add_next :
    s.add c t q = (put (grow c.kind t s.cells) t x).map fun cells => ⟨cells, t, some q⟩ := by
  rw [add, h]
  simp only [hx, ok_bind]
  cases put (grow c.kind t s.cells) t x <;> rfl

theorem add_inReach (hcells : s.cells.length = roomFor u) (hle : u ≤ t) (hlt : t < 2 * roomFor u) :
    ∃ s', s.add c t q = .ok s' ∧ s'.previous = some q ∧ s'.cells.length = roomFor t := by
  have hgrow : (grow c.kind t s.cells).length = roomFor t := by
    rw [length_grow, hcells]
    split
    · next h => exact (roomFor_of_le h hlt).symm
    · next h => exact (roomFor_of_lt hle (by omega)).symm
  have hroom : t < (grow c.kind t s.cells).length := by
    rw [length_grow, hcells]
    split <;> omega
  rw [add_next h hx, put_eq, if_pos hroom]
  exact ⟨_, rfl, rfl, by rw [length_set, hgrow]⟩

theorem add_outOfReach (hcells : s.cells.length = roomFor u) (hlt : 2 * roomFor u ≤ t) :
    s.add c t q = .error .outOfRange := by
  have hroom : ¬ t < (grow c.kind t s.cells).length := by
    rw [length_grow, hcells]
    split <;> omega
  rw [add_next h hx, put_eq, if_neg hroom]
  rfl

end

end Add

end Sweep

namespace Setup

open Sweep

variable {s : Setup} (bar : Bar) {c : Comparison} {frames : List Frame} {ticks : List Nat}

theorem sweep_cons {sw : Sweep} {f : Frame} {t : Int} (h : tickOf s.tb f = .ok t) :
    s.sweep bar c sw (f :: frames) = (do
      bar.tick (.int t)
      let sw' ← Session.ofExcept (sw.add c t f.picture)
      s.sweep bar c sw' frames) := by
  rw [sweep, h]
  rfl

section Next

variable {sw : Sweep} {e : Frame} {u : Nat}
  (hticks : Forall₂ (fun f (t : Nat) => tickOf s.tb f = .ok t) frames ticks)
  (hsorted : (u :: ticks).Pairwise (· ≤ ·)) (hcompare : c.Compares (e :: frames))
  (hprevious : sw.previous = some e.picture) (hcells : sw.cells.length = roomFor u)

include hticks hsorted hcompare hprevious hcells

/-- The frames up to the first one out of reach are shown. Nothing but the progress can fail before
it. -/
theorem sweep_shows : ∃ shown sw', shown <+: ticks ∧
    ((u :: ticks).IsChain (fun i j => j < 2 * roomFor i) → shown = ticks) ∧
    s.sweep bar c sw frames = (do
      forM shown fun (t : Nat) => bar.tick (.int t)
      if (u :: ticks).IsChain fun i j => j < 2 * roomFor i then return sw'
      else throw .outOfRange) := by
  induction hticks generalizing sw e u with
  | nil => exact ⟨[], sw, prefix_rfl, fun _ => rfl, by simp [sweep]⟩
  | @cons f t frames ticks ht _ ih =>
    obtain ⟨hle, hsorted⟩ := pairwise_cons.1 hsorted
    obtain ⟨x, hx⟩ := hcompare e (.head _) f (.tail _ (.head _))
    simp only [isChain_cons_cons]
    rw [sweep_cons bar ht]
    by_cases hlt : t < 2 * roomFor u
    · obtain ⟨sw₁, hadd, hprevious, hcells⟩ :=
        add_inReach hprevious hx hcells (hle t (.head _)) hlt
      obtain ⟨shown, sw', hshown, hall, hsweep⟩ := ih hsorted hcompare.tail hprevious hcells
      refine ⟨t :: shown, sw', (prefix_cons_inj t).2 hshown, fun h => by rw [hall h.2], ?_⟩
      rw [hadd, Session.ofExcept_ok, forM_cons, bind_assoc]
      simp only [pure_bind, hsweep, hlt, true_and]
    · refine ⟨[t], sw, by simp, fun h => absurd h.1 hlt, ?_⟩
      rw [add_outOfReach hprevious hx hcells (Nat.not_lt.1 hlt), if_neg fun h => hlt h.1]
      simp only [forM_cons, forM_nil, bind_assoc, pure_bind]
      rfl

end Next

section Start

variable (hticks : Forall₂ (fun f (t : Nat) => tickOf s.tb f = .ok t) frames ticks)
  (hsorted : ticks.Pairwise (· ≤ ·)) (hcompare : c.Compares frames)

theorem sweep_first {f : Frame} {t : Nat} (h : tickOf s.tb f = .ok t) :
    ∃ sw, s.sweep bar c (start c.kind) (f :: frames) = (do
        bar.tick (.int t)
        s.sweep bar c sw frames) ∧
      sw.previous = some f.picture ∧ sw.cells.length = roomFor (min t initialSize) := by
  refine ⟨⟨grow c.kind t (start c.kind).cells, t, some f.picture⟩, ?_, rfl, ?_⟩
  · rw [sweep_cons bar h, add_first rfl, Session.ofExcept_ok]
    simp only [pure_bind]
  · rw [length_grow, roomFor_min, start, length_zero]

theorem pairwise_min {t : Nat} (h : (t :: ticks).Pairwise (· ≤ ·)) :
    (min t initialSize :: ticks).Pairwise (· ≤ ·) := by
  obtain ⟨hle, hrest⟩ := pairwise_cons.1 h
  exact pairwise_cons.2 ⟨fun u hu => (Nat.min_le_left _ _).trans (hle u hu), hrest⟩

include hticks hsorted hcompare

theorem sweep_start_shows : ∃ shown sw, shown <+: ticks ∧ (InReach ticks → shown = ticks) ∧
    s.sweep bar c (start c.kind) frames = (do
      forM shown fun (t : Nat) => bar.tick (.int t)
      if InReach ticks then return sw else throw .outOfRange) := by
  cases hticks with
  | nil => exact ⟨[], _, prefix_rfl, fun _ => rfl, rfl⟩
  | @cons f t frames ticks ht hticks =>
    obtain ⟨sw₁, hfirst, hprevious, hcells⟩ := sweep_first bar ht
    obtain ⟨shown, sw, hshown, hall, hsweep⟩ :=
      sweep_shows bar hticks (pairwise_min hsorted) hcompare hprevious hcells
    refine ⟨t :: shown, sw, (prefix_cons_inj t).2 hshown, fun h => by rw [hall h], ?_⟩
    rw [hfirst, forM_cons, bind_assoc]
    simp only [hsweep]
    rfl

end Start

def progress (s : Setup) (title : String) (total : Int) (ticks : List Nat) : Session Unit := do
  let bar ← s.bar.start (.int total) title
  forM ticks fun (t : Nat) => bar.tick (.int t)

/-- What an analysis of a stream begins with: the stream is there and was not analysed before, its
frames have ticks in order, and the progress can be shown. -/
structure Watches (s : Setup) (key : Key) (title : String) (k : Nat) (v : VideoTrack) (ticks : List Nat)
    (w w' : Workspace) : Prop where
  stream : k < s.src.videos.length
  fresh : stored s.temp s.src.path key w = .ok none w
  track : ∃ m, w.media.lookup (absolutePath s.src.path) = some m ∧ m.video[k]? = some v
  timed : Forall₂ (fun f (t : Nat) => tickOf s.tb f = .ok t) v.frames ticks
  sorted : ticks.Pairwise (· ≤ ·)
  progress : ∃ rate, v.averageRate = some rate ∧
    s.progress title (Exact.trunc (v.duration * v.timeBase * rate)) ticks w = .ok () w'

section Change

variable {key : Key} {title : String} {k : Nat} {v : VideoTrack} {w w' : Workspace}
  (h : s.Watches key title k v ticks w w') (hcompare : c.Compares v.frames)

include h

theorem Watches.change_eq :
    ∃ bar w₁, (forM ticks fun (t : Nat) => bar.tick (.int t)) w₁ = .ok () w' ∧
      s.change k key title c.kind (pure c) w = (do
        let sw ← s.sweep bar c (start c.kind) v.frames
        Bar.finish
        save s.temp s.src.path key (sw.levels c.kind) : Session Levels) w₁ := by
  obtain ⟨m, hmedium, hv⟩ := h.track
  obtain ⟨rate, hrate, hprogress⟩ := h.progress
  obtain ⟨bar, w₁, hstart, hshown⟩ := run_bind_eq_ok.1 hprogress
  have hstream : ¬ (s.src.videos.length : Int) ≤ k := by
    have := h.stream
    omega
  have htracks : s.tracks w = .ok m.video w := by
    change EStateM.Result.ok
      (((w.media.lookup (absolutePath s.src.path)).map (·.video)).getD []) w = _
    rw [hmedium]
    rfl
  refine ⟨bar, w₁, hshown, ?_⟩
  rw [change, if_neg hstream, run_bind_of_ok h.fresh]
  dsimp only
  rw [run_bind_of_ok htracks, Int.toNat_natCast, hv]
  dsimp only
  rw [hrate]
  dsimp only
  rw [run_bind_of_ok hstart, pure_bind]

include hcompare

theorem Watches.change_inReach (hreach : InReach ticks) :
    ∃ levels, s.change k key title c.kind (pure c) w = (do
      Bar.finish
      save s.temp s.src.path key levels : Session Levels) w' := by
  obtain ⟨bar, w₁, hshown, hchange⟩ := h.change_eq (c := c)
  obtain ⟨shown, sw, -, hall, hsweep⟩ := sweep_start_shows bar h.timed h.sorted hcompare
  refine ⟨sw.levels c.kind, ?_⟩
  rw [hchange, hsweep, if_pos hreach, hall hreach, bind_assoc, run_bind_of_ok hshown, pure_bind]

theorem Watches.change_outOfReach (hreach : ¬ InReach ticks) :
    ∃ w₂, s.change k key title c.kind (pure c) w = .error .outOfRange w₂ := by
  obtain ⟨bar, w₁, hshown, hchange⟩ := h.change_eq (c := c)
  obtain ⟨shown, sw, ⟨rest, rfl⟩, -, hsweep⟩ := sweep_start_shows bar h.timed h.sorted hcompare
  rw [forM_append] at hshown
  obtain ⟨done, w₂, hfirst, -⟩ := run_bind_eq_ok.1 hshown
  refine ⟨w₂, ?_⟩
  rw [hchange, hsweep, if_neg hreach, bind_assoc, run_bind_of_ok hfirst]
  exact run_bind_of_error rfl

end Change

end Setup

def Session.Spares {α : Type} (e : Fault) (x : Session α) : Prop := ∀ w w', x w ≠ .error e w'

namespace Session

variable {α β : Type} {e : Fault}

theorem spares_pure (a : α) : Spares e (pure a) := by
  intro w w' h
  cases h

theorem spares_get : Spares e get := by
  intro w w' h
  cases h

theorem spares_set (w : Workspace) : Spares e (set w) := by
  intro w₁ w₂ h
  cases h

theorem spares_throw {f : Fault} (h : f ≠ e) : Spares e (throw f : Session α) := by
  intro w w' hthrow
  cases hthrow
  exact h rfl

theorem Spares.bind {x : Session α} {f : α → Session β} (hx : Spares e x)
    (hf : ∀ a, Spares e (f a)) : Spares e (x >>= f) := by
  intro w w' h
  cases hrun : x w with
  | ok a w₁ =>
    rw [run_bind_of_ok hrun] at h
    exact hf a w₁ w' h
  | error f w₁ =>
    rw [run_bind_of_error hrun] at h
    cases h
    exact hx w w' hrun

theorem Spares.ite {c : Prop} [Decidable c] {x y : Session α} (hx : Spares e x) (hy : Spares e y) :
    Spares e (if c then x else y) := by
  split
  · exact hx
  · exact hy

theorem spares_ofExcept {x : Except Fault α} (h : x ≠ .error e) : Spares e (ofExcept x) := by
  cases x with
  | ok a => exact spares_pure a
  | error f => exact spares_throw fun hf => h (hf ▸ rfl)

end Session

namespace Cache

open Session

theorem spares_load (temp : String) : Spares .outOfRange (load temp) := by
  refine .bind (.bind spares_get fun _ => spares_pure _) fun isFile => .ite ?_ (spares_pure _)
  refine .bind (.bind (.bind spares_get fun w => ?_) fun b => ?_) fun text => ?_
  · split
    · exact spares_pure _
    · exact spares_throw (by decide)
  · split
    · exact spares_pure _
    · exact spares_throw (by decide)
  · split
    · exact spares_pure _
    · exact spares_throw (by simp)

theorem store_ne_outOfRange (j : Json) (path key : String) (l : Levels) :
    store j path key l ≠ .error .outOfRange := by
  intro h
  rw [store.eq_def] at h
  split at h
  · split at h
    · next entries _ =>
      rw [insertEntry.eq_def] at h
      split at h <;> cases h
    · cases h
  · cases h

theorem spares_save (temp path : String) (k : Key) (l : Levels) :
    Spares .outOfRange (save temp path k l) := by
  have htext : k.text ≠ .error .outOfRange := by
    rw [Key.text]
    split <;> nofun
  have hrest : Spares .outOfRange (do
      let key ← Session.ofExcept k.text
      let j := (← load temp).getD (.obj [])
      let j ← Session.ofExcept (store j path key l)
      Session.writeText (fileOf temp) j.compact
      return l : Session Levels) := by
    refine .bind (spares_ofExcept htext) fun key => .bind (spares_load temp) fun j =>
      .bind (spares_ofExcept (store_ne_outOfRange _ path key l)) fun j => ?_
    refine .bind (.bind spares_get fun w => .ite (spares_set _) (spares_throw (by decide))) fun _ =>
      spares_pure l
  refine .bind (.bind spares_get fun _ => spares_pure _) fun known => .ite ?_ hrest
  refine .bind (.bind spares_get fun w => .ite (spares_throw (by decide)) ?_) fun _ => hrest
  exact .ite (spares_set _) (spares_throw (by decide))

end Cache

theorem Bar.finish_ok (w : Workspace) : ∃ out, Bar.finish w = .ok () { w with out := out } := by
  have hget : (get : Session Workspace) w = .ok w w := rfl
  rw [Bar.finish, run_bind_of_ok hget]
  refine ⟨_, Session.write_ok ?_ w⟩
  intro c hc
  rw [String.toList_append, mem_append] at hc
  rcases hc with hc | hc
  · exact Console.lt_of_mem_spaces hc
  · rw [mem_singleton.1 hc]
    decide

namespace Setup

open Sweep Method

variable {s : Setup} {vs : Method.Values} {k : Nat} {v : VideoTrack} {ticks : List Nat}
  {w w' : Workspace}

theorem Watches.outOfRange_iff {c : Comparison} {key : Key} {title : String}
    (h : s.Watches key title k v ticks w w') (hcompare : c.Compares v.frames) :
    ((∃ w₂, s.change k key title c.kind (pure c) w = .error .outOfRange w₂) ↔ ¬ InReach ticks) ∧
      (InReach ticks → (∃ name, key.text = .ok name) → Ready s.temp w' →
        ¬ w'.tree.isFile (absolutePath (fileOf s.temp)) →
        ∃ levels w₂, s.change k key title c.kind (pure c) w = .ok levels w₂) := by
  refine ⟨⟨?_, h.change_outOfReach hcompare⟩, ?_⟩
  · rintro ⟨w₂, hfault⟩ hreach
    obtain ⟨levels, hrun⟩ := h.change_inReach hcompare hreach
    have hfinish : Session.Spares .outOfRange Bar.finish :=
      .bind Session.spares_get fun _ => .bind Session.spares_get fun _ =>
        .ite (Session.spares_set _) (Session.spares_throw (by decide))
    have hsave := spares_save s.temp s.src.path key levels
    exact (hfinish.bind fun _ => hsave) w' w₂ (hrun ▸ hfault)
  · rintro hreach ⟨name, hname⟩ hready hfresh
    obtain ⟨levels, hrun⟩ := h.change_inReach hcompare hreach
    obtain ⟨out, hfinish⟩ := Bar.finish_ok w'
    have hready : Ready s.temp { w' with out := out } := ⟨hready.place, hready.free⟩
    obtain ⟨w₂, hsave⟩ := hready.save_fresh hfresh s.src.path hname levels
    exact ⟨levels, w₂, by rw [hrun, run_bind_of_ok hfinish, hsave]⟩

/-- The changes in a stream whose frames have ticks in order, whatever the filter does to its
pictures. Both analyses go out of range exactly if a frame is out of reach. Otherwise they end well,
given a place for their levels. -/
theorem change_in_range_iff (filter : Filter) (hk : intOf vs "stream" = k) :
    (∀ info others, s.src.videos = info :: others → info.width * info.height ≠ 0 →
      (∀ f ∈ v.frames,
        (filter.view (intOf vs "width") (intOf vs "blur") f.picture).length < 2 ^ 64) →
      s.Watches ⟨"motion", s.tb, vs⟩ "Analyzing motion" k v ticks w w' →
      ((∃ w₂, s.motionThrough filter vs w = .error .outOfRange w₂) ↔ ¬ InReach ticks) ∧
        (InReach ticks → (∃ name, Key.text ⟨"motion", s.tb, vs⟩ = .ok name) →
          Ready s.temp w' → ¬ w'.tree.isFile (absolutePath (fileOf s.temp)) →
          ∃ levels w₂, s.motionThrough filter vs w = .ok levels w₂)) ∧
    (s.Watches ⟨"pixeldiff", s.tb, vs⟩ "Analyzing pixel diffs" k v ticks w w' →
      ((∃ w₂, s.pixels vs w = .error .outOfRange w₂) ↔ ¬ InReach ticks) ∧
        (InReach ticks → (∃ name, Key.text ⟨"pixeldiff", s.tb, vs⟩ = .ok name) →
          Ready s.temp w' → ¬ w'.tree.isFile (absolutePath (fileOf s.temp)) →
          ∃ levels w₂, s.pixels vs w = .ok levels w₂)) := by
  rw [motionThrough, pixels, hk]
  constructor
  · intro info others hvideos hpixels hview h
    rw [hvideos]
    exact h.outOfRange_iff (compares_brightness hpixels hview)
  · intro h
    exact h.outOfRange_iff (compares_colors v.frames)

def slides (times : List Float) : VideoTrack where
  duration := 1
  timeBase := 1
  averageRate := some 1
  pixelFormat := "yuv420p"
  width := 1
  height := 1
  frames := times.map fun t => ⟨t, .plain 1 1 0 0 0, true, 0⟩

def lecture : Setup where
  src :=
    { path := "a.mp4", label := "0", bitrate := .null, duration := .null, description := .null,
      videos := [⟨1, 1, "h264", 1, none, none, 1, "yuv420p", none, none, none, none, .null, .null⟩],
      subtitles := [], audios := [] }
  extractor := ⟨⟨"ffmpeg", "", false⟩, 5, "", .plain⟩
  strict := true
  tb := 1
  bar := .hidden
  temp := ""
  console := .plain

def lectureHall (times : List Float) : Workspace :=
  { emptyDesk with media := [("/work/a.mp4", ⟨none, "", [], [], [slides times]⟩)] }

theorem length_view_slides (times : List Float) :
    ∀ f ∈ (slides times).frames, (Filter.clear.view 0 0 f.picture).length < 2 ^ 64 := by
  intro f hf
  obtain ⟨t, -, rfl⟩ := mem_map.1 hf
  change (Filter.clear.view 0 0 (.plain 1 1 0 0 0)).length < 2 ^ 64
  decide

theorem progress_lecture (title : String) (total : Int) (ticks : List Nat) (times : List Float) :
    lecture.progress title total ticks (lectureHall times) = .ok () (lectureHall times) := by
  have hstart : lecture.bar.start (.int total) title (lectureHall times) =
      .ok { Bar.hidden with task := some ⟨title, .int total, 0.0⟩ } (lectureHall times) := rfl
  rw [progress, run_bind_of_ok hstart]
  induction ticks with
  | nil => rfl
  | cons t ticks ih => exact ih

theorem watches_lecture {times : List Float} (key : Key) (title : String)
    (htimed : Forall₂ (fun f (t : Nat) => tickOf lecture.tb f = .ok t) (slides times).frames
      ticks) (hsorted : ticks.Pairwise (· ≤ ·)) :
    lecture.Watches key title 0 (slides times) ticks (lectureHall times) (lectureHall times) where
  stream := by decide
  fresh := by
    have hfile : ¬ (lectureHall times).tree.isFile (absolutePath (fileOf lecture.temp)) :=
      not_isFile_emptyDesk _
    exact stored_of_not_isFile hfile _ _
  track := by
    have hpath : absolutePath lecture.src.path = "/work/a.mp4" := by decide +kernel
    rw [hpath]
    exact ⟨_, rfl, rfl⟩
  timed := htimed
  sorted := hsorted
  progress := ⟨1, rfl, progress_lecture _ _ _ _⟩

theorem change_in_range_iff_three_frames : InReach [0, 2047, 4095] ∧
    (∃ levels w', lecture.motion [] (lectureHall [0.0, 2047.0, 4095.0]) = .ok levels w') ∧
    ∃ levels w', lecture.pixels [] (lectureHall [0.0, 2047.0, 4095.0]) = .ok levels w' := by
  have htimed : Forall₂ (fun f (t : Nat) => tickOf lecture.tb f = .ok t)
      (slides [0.0, 2047.0, 4095.0]).frames [0, 2047, 4095] :=
    .cons (by decide +kernel) (.cons (by decide +kernel) (.cons (by decide +kernel) .nil))
  have hready : Ready lecture.temp (lectureHall [0.0, 2047.0, 4095.0]) :=
    ⟨ready_emptyDesk.place, ready_emptyDesk.free⟩
  have hreach : InReach [0, 2047, 4095] := by decide
  have hwatches (key : Key) (title : String) := watches_lecture key title htimed (by decide)
  obtain ⟨hmotion, hpixels⟩ := @change_in_range_iff lecture [] 0 _ _ _ _ .clear rfl
  refine ⟨hreach, ?_, ?_⟩
  · exact (hmotion _ _ rfl (by decide) (length_view_slides _) (hwatches _ _)).2 hreach
      ⟨_, if_pos (by decide +kernel)⟩ hready (not_isFile_emptyDesk _)
  · exact (hpixels (hwatches _ _)).2 hreach ⟨_, if_pos (by decide +kernel)⟩ hready
      (not_isFile_emptyDesk _)

theorem change_out_of_range :
    Forall₂ (fun f (t : Nat) => tickOf lecture.tb f = .ok t) (slides [0.0, 2048.0]).frames
        [0, 2048] ∧
      (∃ w', lecture.motion [] (lectureHall [0.0, 2048.0]) = .error .outOfRange w') ∧
      ∃ w', lecture.pixels [] (lectureHall [0.0, 2048.0]) = .error .outOfRange w' := by
  have htimed : Forall₂ (fun f (t : Nat) => tickOf lecture.tb f = .ok t)
      (slides [0.0, 2048.0]).frames [0, 2048] :=
    .cons (by decide +kernel) (.cons (by decide +kernel) .nil)
  have hwatches (key : Key) (title : String) := watches_lecture key title htimed (by decide)
  have hk : intOf [] "stream" = (0 : Nat) := rfl
  refine ⟨htimed, ?_, ?_⟩
  · have hcompare : (brightness (Filter.clear.view 0 0) (1 * 1)).Compares
        (slides [0.0, 2048.0]).frames := compares_brightness (by decide) (length_view_slides _)
    rw [motion, motionThrough, hk]
    exact (hwatches _ _).change_outOfReach hcompare (by decide)
  · rw [pixels, hk]
    exact (hwatches _ _).change_outOfReach (compares_colors _) (by decide)

end Setup

end Jumpcut
