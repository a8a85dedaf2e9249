import Jumpcut.Proofs.ArithmeticLaws
import Jumpcut.Proofs.SelectionLaws

/-!
When jumps change the picture. The frames of a track whose times follow its time stamps lie in order
on a timeline. Such a track shows the same with jumps as without exactly if none of them lands behind
the frame wanted.
-/
namespace Jumpcut

open Outcome Exact List Sample Reel Deck Search VideoWork

theorem Number.round_mul_eq_ok {x : Float} {a tb : Rat} {y : Number} {n : Int}
    (hx : ofFloat? x = some a) (hmul : Number.mul (.float x) (.frac tb) = .ok y)
    (hround : y.round = .ok n) : n = Exact.round (nearest (a * nearest tb)) := by
  obtain ⟨_, hz, hrest⟩ := bind_eq_ok.1 hmul
  obtain ⟨w, hw, hy⟩ := bind_eq_ok.1 hrest
  cases hz
  cases pure_eq_ok.1 hy
  have hvalue := ofFloat?_mul hx (ofFloat?_of_nearestFloat hw)
  rw [round, toIntBy] at hround
  split at hround
  · next q hq =>
    rw [hvalue, inRange?] at hq
    split at hq
    · cases hq
      cases hround
      rfl
    · cases hq
  · cases hround
  · cases hround

/-- Frames in the order of their time stamps, at the times that these stand for. -/
structure VideoTrack.Timed (v : VideoTrack) : Prop where
  base_pos : 0 < v.timeBase
  increasing : v.frames.Pairwise (·.pts < ·.pts)
  time_eq : ∀ f ∈ v.frames, toFloat? (f.pts * v.timeBase) = some f.time

namespace VideoTrack

variable {v : VideoTrack} {tb rate : Rat} {r : Reel Shown}

def tickAt (v : VideoTrack) (tb : Rat) (pts : Int) : Int :=
  Exact.round (nearest (nearest (pts * v.timeBase) * nearest tb))

theorem tickAt_mono (hbase : 0 < v.timeBase) (htb : 0 ≤ tb) {m n : Int} (h : m ≤ n) :
    v.tickAt tb m ≤ v.tickAt tb n := by
  have hcast : (m : Rat) ≤ n := by exact_mod_cast h
  refine round_mono (nearest_mono (mul_le_mul_of_nonneg_right ?_ (nearest_nonneg htb)))
  exact nearest_mono (mul_le_mul_of_nonneg_right hcast hbase.le)

theorem tickAt_zero (v : VideoTrack) (tb : Rat) : v.tickAt tb 0 = 0 := by
  rw [tickAt, Int.cast_zero, zero_mul, nearest_zero, zero_mul, nearest_zero]
  rfl

section

variable (hv : v.Timed) (htb : 0 ≤ tb) (h : ofTrack tb v = .ok r)

include hv h

theorem Timed.shots_eq :
    r.shots = v.frames.map fun f =>
      ⟨v.tickAt tb f.pts, ⟨f.picture, v.pixelFormat⟩, f.key, f.pts⟩ := by
  rw [ofTrack, bind_eq_ok] at h
  obtain ⟨shots, hshots, hr⟩ := h
  cases pure_eq_ok.1 hr
  clear hr
  have htime := hv.time_eq
  generalize v.frames = fs at hshots htime
  induction fs generalizing shots with
  | nil =>
    cases pure_eq_ok.1 hshots
    rfl
  | cons f fs ih =>
    simp only [mapM_cons, bind_eq_ok, pure_eq_ok] at hshots
    obtain ⟨_, ⟨y, hmul, n, hround, rfl⟩, rest, hrest, rfl⟩ := hshots
    have hvalue := ofFloat?_of_toFloat? (htime f (.head _))
    have htail := ih rest hrest fun g hg => htime g (.tail _ hg)
    rw [map_cons, ← htail, Number.round_mul_eq_ok hvalue hmul hround]
    rfl

include htb in
theorem Timed.ordered : r.Ordered := by
  rw [Reel.Ordered, hv.shots_eq h, pairwise_map]
  exact hv.increasing.imp fun hlt => tickAt_mono hv.base_pos htb hlt.le

theorem Timed.pts_lt : r.shots.Pairwise (·.pts < ·.pts) := by
  rw [hv.shots_eq h, pairwise_map]
  exact hv.increasing

include htb

theorem Timed.tick_le_zero {s : Shot Shown} (hs : s ∈ r.shots) (hpts : s.pts ≤ 0) : s.tick ≤ 0 := by
  rw [hv.shots_eq h] at hs
  obtain ⟨f, -, rfl⟩ := mem_map.1 hs
  exact (tickAt_mono hv.base_pos htb hpts).trans_eq (v.tickAt_zero tb)

theorem Timed.jumpsShort_noSeek (want : Int) : r.JumpsShort ⟨4294967295, 0⟩ want := by
  intro t _ hlate hcost
  rw [mul_zero]
  rcases r.keyPlace_cases 0 with hzero | ⟨s, hs, hpts⟩
  · rw [hzero]
    exact Nat.zero_le _
  · have htick := hv.tick_le_zero htb h (mem_of_getElem? hs) hpts
    by_contra hlt
    have hwant := (first_le_iff (hv.ordered htb h) hs want).1 (by omega)
    omega

end

structure Steady (v : VideoTrack) (rate : Rat) : Prop where
  rate_eq : v.averageRate = some rate
  rate_pos : 0 < rate
  rate_den_le : rate.den ≤ 2 ^ 32
  base_num : v.timeBase.num = 1
  base_den_le : v.timeBase.den ≤ 2 ^ 32
  pts_eq : ∀ (k : Nat) (f : Frame), v.frames[k]? = some f → f.pts = k * trunc (v.timeBase.den / rate)
  length_le : v.frames.length ≤ 2 ^ 48

theorem tickAt_le_tickAt (hbase : 0 ≤ v.timeBase) (hle : tb ≤ rate) {pts : Int} (hpts : 0 ≤ pts) :
    v.tickAt tb pts ≤ v.tickAt rate pts := by
  have hcast : (0 : Rat) ≤ pts := by exact_mod_cast hpts
  refine round_mono (nearest_mono (mul_le_mul_of_nonneg_left (nearest_mono hle) ?_))
  exact nearest_nonneg (mul_nonneg hcast hbase)

theorem tickAt_mul_le {stamps : Int} (hbase : 2 ^ (-1022 : Int) ≤ stamps * v.timeBase)
    (hrate : 2 ^ (-1022 : Int) ≤ rate) (hspan : stamps * v.timeBase * rate ≤ 1) {k : Nat}
    (hk : k ≤ 2 ^ 48) : v.tickAt rate (k * stamps) ≤ k := by
  rcases Nat.eq_zero_or_pos k with rfl | hpos
  · rw [Nat.cast_zero, zero_mul, tickAt_zero]
  have hone : (1 : Rat) ≤ k := by exact_mod_cast hpos
  have hmany : (k : Rat) ≤ 2 ^ 48 := by exact_mod_cast hk
  have hunit : 0 < stamps * v.timeBase := (two_zpow_pos _).trans_le hbase
  have hrate0 : 0 < rate := (two_zpow_pos _).trans_le hrate
  have htime : nearest (((k * stamps : Int) : Rat) * v.timeBase) ≤
      k * (stamps * v.timeBase) * (1 + 1 / 2 ^ 53) := by
    rw [Int.cast_mul, Int.cast_natCast, mul_assoc]
    exact nearest_le_mul (hbase.trans (le_mul_of_one_le_left hunit.le hone))
  have hprod : nearest (((k * stamps : Int) : Rat) * v.timeBase) * nearest rate ≤
      k * (1 + 1 / 2 ^ 53) ^ 2 := by
    calc _ ≤ k * (stamps * v.timeBase) * (1 + 1 / 2 ^ 53) * (rate * (1 + 1 / 2 ^ 53)) := by
          refine mul_le_mul htime (nearest_le_mul hrate) (nearest_nonneg hrate0.le) ?_
          positivity
      _ = k * (stamps * v.timeBase * rate) * (1 + 1 / 2 ^ 53) ^ 2 := by ring
      _ ≤ k * 1 * (1 + 1 / 2 ^ 53) ^ 2 := by gcongr
      _ = k * (1 + 1 / 2 ^ 53) ^ 2 := by ring
  have hlarge : (1 : Rat) ≤ k * (1 + 1 / 2 ^ 53) ^ 2 := by linarith
  have hnear : nearest (nearest (((k * stamps : Int) : Rat) * v.timeBase) * nearest rate) ≤
      k * (1 + 1 / 2 ^ 53) ^ 2 * (1 + 1 / 2 ^ 53) :=
    (nearest_mono hprod).trans (nearest_le_mul (two_zpow_neg_le_one.trans hlarge))
  rw [tickAt]
  generalize nearest (nearest (((k * stamps : Int) : Rat) * v.timeBase) * nearest rate) = q at hnear
  have hround := (abs_le.1 (abs_round_sub_le q)).2
  have hlt : ((Exact.round q : Int) : Rat) < ((k + 1 : Int) : Rat) := by
    rw [Int.cast_add, Int.cast_natCast, Int.cast_one]
    linarith
  exact Int.lt_add_one_iff.1 (by exact_mod_cast hlt)

theorem Steady.tickAt_le (hsteady : v.Steady rate) (hle : tb ≤ rate)
    (hstamps : 0 < trunc (v.timeBase.den / rate)) {k : Nat} (hk : k ≤ 2 ^ 48) :
    v.tickAt tb (k * trunc (v.timeBase.den / rate)) ≤ k := by
  have hden : (0 : Rat) < v.timeBase.den := by exact_mod_cast v.timeBase.pos
  have hrate0 := hsteady.rate_pos
  have hbase : v.timeBase * v.timeBase.den = 1 := by
    rw [Rat.mul_den_eq_num, hsteady.base_num, Int.cast_one]
  have hsmall : (2 : Rat) ^ (-1022 : Int) ≤ 1 / 2 ^ 32 := by
    rw [one_div, ← zpow_natCast, ← zpow_neg]
    exact zpow_le_zpow_right₀ (by norm_num) (by norm_num)
  have hunit : 1 / 2 ^ 32 ≤ v.timeBase := by
    rw [eq_one_div_of_mul_eq_one_left hbase]
    exact one_div_le_one_div_of_le hden (by exact_mod_cast hsteady.base_den_le)
  have hrate : 1 / 2 ^ 32 ≤ rate := by
    have hpos : (0 : Rat) < rate.den := by exact_mod_cast rate.pos
    have hnum : (1 : Rat) ≤ rate.num := by exact_mod_cast Rat.num_pos.2 hrate0
    calc (1 : Rat) / 2 ^ 32 ≤ 1 / rate.den :=
          one_div_le_one_div_of_le hpos (by exact_mod_cast hsteady.rate_den_le)
      _ ≤ rate.num / rate.den := by gcongr
      _ = rate := Rat.num_div_den rate
  have hbase0 : 0 < v.timeBase := lt_of_lt_of_le (by norm_num) hunit
  have hone : (1 : Rat) ≤ trunc (v.timeBase.den / rate) := by exact_mod_cast hstamps
  have hspan : trunc (v.timeBase.den / rate) * v.timeBase * rate ≤ 1 := by
    calc _ ≤ v.timeBase.den / rate * v.timeBase * rate := by
          gcongr
          exact trunc_le (div_nonneg hden.le hrate0.le)
      _ = v.timeBase * v.timeBase.den := by field_simp
      _ = 1 := hbase
  refine (tickAt_le_tickAt hbase0.le hle ?_).trans (tickAt_mul_le ?_ (hsmall.trans hrate) hspan hk)
  · exact mul_nonneg (Int.natCast_nonneg k) hstamps.le
  · exact (hsmall.trans hunit).trans (le_mul_of_one_le_left hbase0.le hone)

theorem Steady.paceOf_eq (hsteady : v.Steady rate) :
    paceOf false v = .ok ⟨(trunc (rate * 5)).toNat, trunc (v.timeBase.den / rate)⟩ := by
  simp only [paceOf, hsteady.rate_eq, hsteady.rate_pos.ne', ↓reduceIte]

theorem Steady.jumpsShort (hsteady : v.Steady rate) (hv : v.Timed) (htb : 0 ≤ tb)
    (hle : tb ≤ rate) (h : ofTrack tb v = .ok r) (cost : Nat) (want : Int) :
    r.JumpsShort ⟨cost, trunc (v.timeBase.den / rate)⟩ want := by
  intro _ _ _ _
  rcases r.keyPlace_cases (want * trunc (v.timeBase.den / rate)) with hzero | ⟨s, hs, hpts⟩
  · exact hzero.trans_le (Nat.zero_le _)
  by_contra hlt
  rw [Nat.not_le] at hlt
  obtain ⟨s', hs'⟩ : ∃ s', r.shots[r.first want]? = some s' :=
    ⟨_, List.getElem?_eq_getElem (hlt.trans (List.getElem?_eq_some_iff.1 hs).1)⟩
  have hwant := (first_le_iff (hv.ordered htb h) hs' want).1 (Nat.le_refl _)
  generalize r.keyPlace _ = k at *
  generalize r.first want = j at *
  have hbehind : s'.pts < s.pts := by
    obtain ⟨hi, rfl⟩ := List.getElem?_eq_some_iff.1 hs
    obtain ⟨hi', rfl⟩ := List.getElem?_eq_some_iff.1 hs'
    exact pairwise_iff_getElem.1 (hv.pts_lt h) _ _ hi' hi hlt
  rw [hv.shots_eq h, getElem?_map, Option.map_eq_some_iff] at hs hs'
  obtain ⟨f, hf, rfl⟩ := hs
  obtain ⟨f', hf', rfl⟩ := hs'
  simp only [hsteady.pts_eq _ _ hf, hsteady.pts_eq _ _ hf'] at hpts hwant hbehind
  have hstamps : 0 < trunc (v.timeBase.den / rate) := by
    by_contra hneg
    nlinarith
  have hshort : j ≤ 2 ^ 48 :=
    (List.getElem?_eq_some_iff.1 hf').1.le.trans hsteady.length_le
  have htick := hsteady.tickAt_le hle hstamps hshort
  have := Int.le_of_mul_le_mul_right hpts hstamps
  omega

end VideoTrack

namespace Deck

variable (label : String) {d d' : Deck Shown} {r : Reel Shown} {want : Int} (hd : d.reel = some r)
  (hd' : d'.reel = some r) (hplace : r.place = 0) (hended : r.ended = false) (hord : r.Ordered)

def Alike (label : String) (d d' : Deck Shown) : Prop :=
  ∀ ws : List Wanted, (∀ x ∈ ws, x.Of label) →
    ((VideoWork.labelled [(label, d)]).compose ws).map (·.head.shown) =
      ((VideoWork.labelled [(label, d')]).compose ws).map (·.head.shown)

include hd hd' hplace hended hord in
theorem alike_of_jumpsShort (hshort : ∀ want, r.JumpsShort d.pace want) (hshort' : ∀ want, r.JumpsShort d'.pace want) :
    Alike label d d' := by
  intro ws hws
  have hord' := ordered_labelled label hord
  obtain ⟨g, hg, hplays⟩ := (plays_begin label d hd hplace hended).compose hord'
    (fun want => (jumpsShort_labelled label r _ want).2 (hshort want)) hws
  obtain ⟨g', hg', hplays'⟩ := (plays_begin label d' hd' hplace hended).compose hord'
    (fun want => (jumpsShort_labelled label r _ want).2 (hshort' want)) hws
  rw [hg, hg', Except.map, Except.map, hplays.seen, hplays'.seen]

theorem jumpAfter_serve {α : Type} (p : Pace) (blank : α) (i : Int) (r : Reel α) :
    (serve p blank i 11 (.begin blank) r).head.jumpAfter = 10 := by
  have hreach := serve_reaches p blank i 11 (.begin blank) r
  rw [back_of_le (show (-1 : Int) ≤ 11 by decide)] at hreach
  exact hreach.jumpAfter_eq (Int.le_refl _)

include hd hplace hended hord

theorem exists_poised {t : Int} (ht : t ∈ r.ticks) (hlate : 10 < t) :
    ∃ g k format, (VideoWork.labelled [(label, d)]).add (.frame (.text label) 11) = .ok g ∧
      g.decks = [(label, ⟨some ⟨(r.labelled label).shots, k, false⟩, d.pace, format⟩)] ∧
      g.head.jumpAfter = 10 ∧ 11 ≤ g.head.tick ∧ g.head.tick ≤ t := by
  have hord' := ordered_labelled label hord
  obtain ⟨j, hj⟩ := getElem?_of_mem ht
  rw [← ticks_labelled label, ticks, getElem?_map, Option.map_eq_some_iff] at hj
  obtain ⟨x, hx, rfl⟩ := hj
  have hsoon : (r.labelled label).first 11 ≤ j := (first_le_iff hord' hx 11).2 hlate
  obtain ⟨g, hg, hplays⟩ := (plays_begin label d hd hplace hended).add
    (x := .frame (.text label) 11) hord' (by
      intro _ n hn u _ hu hcost
      cases hn
      omega) rfl
  have hpoised : g.head.jumpAfter = 10 := by
    obtain ⟨_, _, _, _, -, -, rfl⟩ := add_frame_eq_ok.1 hg
    exact jumpAfter_serve _ _ _ _
  obtain ⟨r₁, format, hdecks, hstands⟩ := hplays.alone
  obtain ⟨s₁, hs₁⟩ : ∃ s₁, (r.labelled label).shots[(r.labelled label).first 11]? = some s₁ :=
    ⟨_, List.getElem?_eq_getElem (Nat.lt_of_le_of_lt hsoon (List.getElem?_eq_some_iff.1 hx).1)⟩
  rw [Play.add, Play.begin, Spot.after_eq_land (by simp) (by simp [Spot.tick]),
    Spot.land_of_first hs₁ rfl] at hstands
  cases hstands with
  | frame hk htick _ =>
    refine ⟨g, _, format, hg, hdecks, hpoised, ?_, ?_⟩
    · rw [htick]
      exact (first_le_iff hord' hk 11).1 (Nat.le_refl _)
    · rw [htick]
      exact tick_le_of_le hord' hk hx hsoon

theorem compose_jump {t : Int} (ht : t ∈ r.ticks) (hlate : 10 < t)
    (hcost : d.pace.cost < want - t) {s : Shot Shown}
    (hs : r.shots[r.keyPlace (want * d.pace.stamps)]? = some s) (hle : want ≤ s.tick) :
    ∃ g, (VideoWork.labelled [(label, d)]).compose
        [.frame (.text label) 11, .frame (.text label) want] = .ok g ∧
      g.head.shown = .ofShot label s := by
  obtain ⟨g, k, format, hg, hdecks, hpoised, hnear, hfar⟩ :=
    exists_poised label hd hplace hended hord ht hlate
  have hjumps : g.head.jumps d.pace want = true := jumps_iff.2 ⟨by omega, by omega⟩
  have hland : (r.labelled label).shots[(r.labelled label).keyPlace (want * d.pace.stamps)]? =
      some ⟨s.tick, .ofShot label s, s.key, s.pts⟩ := by
    rw [keyPlace_labelled, Reel.labelled, getElem?_map, hs, Option.map_some]
  have hlook : g.decks.lookup label =
      some ⟨some ⟨(r.labelled label).shots, k, false⟩, d.pace, format⟩ := by
    rw [hdecks, lookup_cons_self]
  have hhead : (serve d.pace .blank 0 want g.head
      ⟨(r.labelled label).shots, k, false⟩).head =
        (g.head.jumped d.pace).accept ⟨s.tick, .ofShot label s, s.key, s.pts⟩ :=
    serve_of_jump (r := ⟨_, k, false⟩) .blank 0 hjumps rfl hland hle
  obtain ⟨g', hadd, hg'⟩ : ∃ g', g.add (.frame (.text label) want) = .ok g' ∧
      g'.head.shown = .ofShot label s :=
    ⟨_, add_frame_eq_ok.2 ⟨label, _, d.pace, format, rfl, hlook, rfl⟩,
      congrArg Head.shown hhead⟩
  refine ⟨g', ?_, hg'⟩
  exact compose_cons_eq_ok.2 ⟨g, hg, compose_cons_eq_ok.2 ⟨g', hadd, rfl⟩⟩

variable {label}

include hd' in
theorem jumpsShort_of_alike (hpts : r.shots.Pairwise (·.pts < ·.pts))
    (hshort' : ∀ want, r.JumpsShort d'.pace want) (halike : Alike label d d') (want : Int) :
    r.JumpsShort d.pace want := by
  intro t ht hlate hcost
  by_contra hlt
  obtain ⟨x, hx, rfl⟩ := mem_map.1 ht
  have hland := r.keyPlace_lt (ne_nil_of_mem hx) (want * d.pace.stamps)
  obtain ⟨s, hs⟩ : ∃ s, r.shots[r.keyPlace (want * d.pace.stamps)]? = some s :=
    ⟨_, getElem?_eq_getElem hland⟩
  obtain ⟨s', hs'⟩ : ∃ s', r.shots[r.first want]? = some s' :=
    ⟨_, getElem?_eq_getElem (by omega)⟩
  -- With the jump the frame where it lands is shown, without it the one before.
  have hle : want ≤ s.tick := (first_le_iff hord hs want).1 (by omega)
  obtain ⟨g, hg, hshown⟩ := compose_jump label hd hplace hended hord ht hlate hcost hs hle
  have hasked : ∀ y ∈ [.frame (.text label) 11] ++ [.frame (.text label) want],
      Wanted.Of label y ∧ r.Within y := by
    intro y hy
    simp only [cons_append, nil_append, mem_cons, not_mem_nil, or_false] at hy
    rcases hy with rfl | rfl
    · exact ⟨rfl, by decide, x, hx, by omega⟩
    · exact ⟨rfl, by omega, s, mem_of_getElem? hs, hle⟩
  obtain ⟨g', hg', hframe⟩ := compose_selects label hd' hplace hended hord hshort' hasked
  have hsame := halike _ fun y hy => (hasked y hy).1
  rw [cons_append, nil_append] at hsame hg'
  rw [hg, hg', Except.map, Except.map, Except.ok.injEq, hshown] at hsame
  rw [← hsame, find?_eq_getElem?_findIdx] at hframe
  change some (label, s) = (r.shots[r.first want]?).map (label, ·) at hframe
  rw [hs', Option.map_some, Option.some.injEq, Prod.mk.injEq] at hframe
  obtain ⟨hi, rfl⟩ := List.getElem?_eq_some_iff.1 hs
  obtain ⟨hi', rfl⟩ := List.getElem?_eq_some_iff.1 hs'
  have hbehind := pairwise_iff_getElem.1 hpts _ _ hi' hi (by omega)
  rw [← hframe.2] at hbehind
  exact lt_irrefl _ hbehind

end Deck

namespace Timeline

variable {t : Timeline} {m : Medium} {d d' : Deck Shown} {label : String}

theorem pictureAt_alike {s s' : Screen} {k : Nat} {p : Picture} (halike : Alike label d d')
    (hsame : s.Same s') (h : t.pictureAt [(label, d)] s k = .ok p) :
    t.pictureAt [(label, d')] s' k = .ok p := by
  simp only [pictureAt, workAt, bind_eq_ok] at h ⊢
  obtain ⟨g, ⟨ws, hws, hg⟩, hp⟩ := h
  have hshown := halike ws (VideoWork.of_of_compose hg)
  rw [hg] at hshown
  obtain ⟨g', hg', hseen⟩ := map_eq_ok.1 hshown.symm
  refine ⟨g', ⟨ws, hws, hg'⟩, ?_⟩
  rw [hseen, ← Makeup.picture_congr hsame, hp]

/-- Jumps leave all pictures of a source as they are exactly if none of them lands behind the frame
wanted. This is so for a track with a constant rate on a timeline that is not faster. -/
theorem seek_agrees_iff {v : VideoTrack} {vs : List VideoTrack} {r : Reel Shown} {tb : Rat}
    (label : String) (hvideo : m.video = v :: vs) (htimed : v.Timed) (htb : 0 < tb)
    (hd : ofMedium false tb (some m) = .ok d) (hd' : ofMedium true tb (some m) = .ok d')
    (hr : d.reel = some r) :
    (Alike label d d' ↔ ∀ want, r.JumpsShort d.pace want) ∧
    (∀ rate, v.Steady rate → tb ≤ rate → Alike label d d') ∧
    (Alike label d d' → ∀ (t : Timeline) (tr : Transcoder) (o : Options) (bar : Bar)
      (temp : String) (c : Console) (σ σ₁ σ₂ : Workspace) (out out' : String × Bool) (file : Source),
      o.noSeek = false → t.tb = tb → t.sources = [(label, file)] →
      σ.media.lookup (absolutePath file.path) = some m →
      t.renderVideo tr o bar temp c σ = .ok out σ₁ →
      t.renderVideo tr { o with noSeek := true } bar temp c σ = .ok out' σ₂ →
      σ₁.frames = σ₂.frames) := by
  obtain ⟨r₁, hr₁, htrack, hpace⟩ := ofMedium_eq_ok hvideo hd
  obtain ⟨r', hr', htrack', hpace'⟩ := ofMedium_eq_ok hvideo hd'
  cases hr.symm.trans hr₁
  cases htrack.symm.trans htrack'
  obtain ⟨hplace, hended⟩ := ofTrack_eq_ok htrack
  have hord := htimed.ordered htb.le htrack
  have hshort' (want : Int) : r.JumpsShort d'.pace want := by
    rw [← pace_of_noSeek hpace']
    exact htimed.jumpsShort_noSeek htb.le htrack want
  have halike : Alike label d d' ↔ ∀ want, r.JumpsShort d.pace want :=
    ⟨jumpsShort_of_alike hr hr' hplace hended hord (htimed.pts_lt htrack) hshort',
      fun hshort => alike_of_jumpsShort label hr hr' hplace hended hord hshort hshort'⟩
  refine ⟨halike, ?_, ?_⟩
  · intro rate hsteady hle
    rw [halike, ← Except.ok.inj (hsteady.paceOf_eq.symm.trans hpace)]
    exact hsteady.jumpsShort htimed htb.le hle htrack _
  · rintro halike t tr o bar temp c σ σ₁ σ₂ out out' file hseek rfl hsources hmedium hrun hrun'
    obtain ⟨s, n, ps, hstage, hps, hframes⟩ := renderVideo_single hrun hsources hmedium (hseek ▸ hd)
    obtain ⟨s', n', ps', hstage', hps', hframes'⟩ := renderVideo_single hrun' hsources hmedium hd'
    obtain ⟨hsame, rfl⟩ := hstage.same hstage' rfl
    have hall : (List.range n.toNat).mapM (t.pictureAt [(label, d')] s') = .ok ps :=
      mapM_eq_ok.2 ((mapM_eq_ok.1 hps).imp fun _ _ => pictureAt_alike halike hsame)
    cases hall.symm.trans hps'
    rw [hframes, hframes']

theorem steady_sample {pixels : List (List UInt8)} (h : pixels.length ≤ 2 ^ 48) :
    (track pixels).Steady 1 := by
  have hbase : (track pixels).timeBase = 1 := rfl
  refine ⟨rfl, by decide, by decide, rfl, by rw [hbase]; decide, ?_, ?_⟩
  · intro k f hf
    rw [track, getElem?_map, getElem?_zipIdx, Option.map_map,
      Option.map_eq_some_iff] at hf
    obtain ⟨_, -, rfl⟩ := hf
    rw [hbase, show trunc ((1 : Rat).den / 1) = 1 by decide +kernel, mul_one]
    exact congrArg Nat.cast (Nat.zero_add k)
  · rwa [track, length_map, length_zipIdx]

def farAhead (tb : Rat) (near far : Int) : Timeline :=
  solo tb [[tick 0 "0" near, tick 1 "0" far]]

theorem seek_agrees_iff_every_tick :
    ∃ d d' r out σ' out' σ'', (track (counted 20)).Timed ∧
      ofMedium false 1 (some (medium (counted 20))) = .ok d ∧
      ofMedium true 1 (some (medium (counted 20))) = .ok d' ∧
      d.reel = some r ∧ (∀ want, r.JumpsShort d.pace want) ∧ Alike "0" d d' ∧
      render (farAhead 1 11 18) false (holding (counted 20)) = .ok out σ' ∧
      render (farAhead 1 11 18) true (holding (counted 20)) = .ok out' σ'' ∧
      σ'.frames = σ''.frames ∧ σ'.frames = [[11, 0, 0], [18, 0, 0]] := by
  obtain ⟨d, hd, hr⟩ := exists_of_reel (show ((ofMedium false 1 (some (medium
    (counted 20)))).toOption.bind (·.reel)) = some ⟨countedShots 1 20, 0, false⟩ by
      decide +kernel)
  obtain ⟨d', hd', -⟩ := exists_of_reel (show ((ofMedium true 1 (some (medium
    (counted 20)))).toOption.bind (·.reel)) = some ⟨countedShots 1 20, 0, false⟩ by
      decide +kernel)
  obtain ⟨out, σ', hrun, hframes⟩ := exists_of_sent (show sent (render
    (farAhead 1 11 18) false (holding (counted 20))) =
      some [[11, 0, 0], [18, 0, 0]] by decide +kernel)
  obtain ⟨out', σ'', hrun', -⟩ := exists_of_sent (show sent (render
    (farAhead 1 11 18) true (holding (counted 20))) =
      some [[11, 0, 0], [18, 0, 0]] by decide +kernel)
  have htimed : (track (counted 20)).Timed :=
    ⟨by decide, by decide +kernel, by decide +kernel⟩
  obtain ⟨hiff, hslow, hsends⟩ := seek_agrees_iff "0" rfl htimed (by decide) hd hd' hr
  have halike := hslow 1 (steady_sample (by decide)) le_rfl
  refine ⟨d, d', _, out, σ', out', σ'', htimed, hd, hd', hr, hiff.1 halike, halike, hrun, hrun', ?_,
    hframes⟩
  exact hsends halike (farAhead 1 11 18) transcoder (options false) .hidden "t"
    console (holding (counted 20)) σ' σ'' out out'
    (Sample.source "/work/a.mp4") rfl rfl rfl (lookup_holding _) hrun hrun'

theorem seek_passes_frame :
    sent (render (farAhead 2 12 18) true (holding (counted 12))) =
      some [[6, 0, 0], [9, 0, 0]] ∧
    sent (render (farAhead 2 12 18) false (holding (counted 12))) =
      some [[6, 0, 0], [11, 0, 0]] := by
  decide +kernel

end Timeline

end Jumpcut
