import Jumpcut.Preview
import Jumpcut.Proofs.OutcomeLaws
import Mathlib.Algebra.BigOperators.Group.List.Basic
import Mathlib.Data.List.Chain
import Mathlib.Tactic.Linarith

namespace Jumpcut

open Outcome

namespace Preview

open List

def Within (lo hi : Int) : List (Int × Int) → Prop
  | [] => lo ≤ hi
  | r :: rs => lo ≤ r.1 ∧ r.1 < r.2 ∧ Within r.2 hi rs

def holes (lo hi : Int) : List (Int × Int) → List (Int × Int)
  | [] => [(lo, hi)]
  | r :: rs => (lo, r.1) :: holes r.2 hi rs

def lengths (rs : List (Int × Int)) : List Int := rs.map fun r => r.2 - r.1

def holeLengths (total : Int) (rs : List (Int × Int)) : List Int :=
  (lengths (holes 0 total rs)).filter (· ≠ 0)

theorem sum_holes (lo hi : Int) (rs : List (Int × Int)) :
    (lengths (holes lo hi rs)).sum + (lengths rs).sum = hi - lo := by
  induction rs generalizing lo with
  | nil => simp [holes, lengths]
  | cons r rs ih =>
    have := ih r.2
    simp only [holes, lengths, map_cons, sum_cons] at this ⊢
    linarith

theorem sum_holeLengths (total : Int) (rs : List (Int × Int)) :
    (holeLengths total rs).sum + (lengths rs).sum = total := by
  have hfilter (xs : List Int) : (xs.filter (· ≠ 0)).sum = xs.sum := by
    induction xs with
    | nil => rfl
    | cons x xs ih => by_cases hx : x = 0 <;> simp_all
  rw [holeLengths, hfilter, sum_holes, sub_zero]

theorem lengths_ranges (clips : List AudioClip) : lengths (ranges clips) = clips.map (·.dur) := by
  simp [lengths, ranges]

variable {last : Int × Int} {rs : List (Int × Int)}

theorem lengths_holes {lo hi : Int} {r : Int × Int} (hlast : (r :: rs).getLast? = some last) :
    lengths (holes lo hi (r :: rs)) = (r.1 - lo) :: (gaps (r :: rs) ++ [hi - last.2]) := by
  induction rs generalizing lo r with
  | nil =>
    cases hlast
    rfl
  | cons s rs ih =>
    rw [getLast?_cons_cons] at hlast
    exact congrArg _ (ih hlast)

theorem Within.last_le {lo hi : Int} (h : Within lo hi rs) (hlast : rs.getLast? = some last) :
    last.2 ≤ hi := by
  induction rs generalizing lo with
  | nil => cases hlast
  | cons r rs ih =>
    cases rs with
    | nil =>
      cases hlast
      exact h.2.2
    | cons s rs =>
      rw [getLast?_cons_cons] at hlast
      exact ih h.2.2 hlast

theorem gaps_ne_zero_iff (rs : List (Int × Int)) :
    (∀ g ∈ gaps rs, g ≠ 0) ↔ rs.IsChain fun r s => r.2 ≠ s.1 := by
  induction rs with
  | nil => simp [gaps]
  | cons r rs ih =>
    cases rs with
    | nil => simp [gaps]
    | cons s rs =>
      rw [gaps, forall_mem_cons, ih, isChain_cons_cons, sub_ne_zero, ne_comm]

section

variable {tb : Rat} {total : Int} {r last : Int × Int} {rs : List (Int × Int)}

theorem tail_eq (hlast : rs.getLast? = some last) :
    tail tb total rs = if last.2 < Exact.round (total * tb) then [total - last.2] else [] := by
  rw [tail, hlast]

theorem counted_from_zero_iff {gs : List Int} {stop : Int} {noticed : Prop} [Decidable noticed]
    (hstop : stop ≤ total) :
    gs ++ (if noticed then [total - stop] else []) =
        (gs ++ [total - stop]).filter (· ≠ 0) ↔
      (∀ g ∈ gs, g ≠ 0) ∧ (stop < total ↔ noticed) := by
  have hfilter : (gs ++ [total - stop]).filter (· ≠ 0) =
      gs.filter (· ≠ 0) ++ if stop < total then [total - stop] else [] := by
    rw [filter_append, filter_singleton]
    have hne : (total - stop ≠ 0) ↔ stop < total := by omega
    simp only [hne, Bool.cond_decide]
  rw [hfilter]
  constructor
  · intro h
    have hall : ∀ g ∈ gs, g ≠ 0 := by
      intro g hg
      have hmem : g ∈ gs.filter (· ≠ 0) ++ if stop < total then [total - stop] else [] := by
        rw [← h]
        exact mem_append_left _ hg
      rw [← hfilter, mem_filter] at hmem
      simpa using hmem.2
    rw [filter_eq_self.2 (by simpa using hall), append_cancel_left_eq] at h
    refine ⟨hall, ?_⟩
    by_cases hn : noticed <;> by_cases hlt : stop < total <;> simp_all
  · rintro ⟨hall, hiff⟩
    rw [filter_eq_self.2 (by simpa using hall)]
    simp only [hiff]

theorem not_counted_of_ne_zero (hr : r.1 < r.2) (hne : r.1 ≠ 0)
    (hlast : (r :: rs).getLast? = some last) :
    lead (r :: rs) ++ gaps (r :: rs) ++ tail tb total (r :: rs) ≠
      (r.1 :: (gaps (r :: rs) ++ [total - last.2])).filter (· ≠ 0) := by
  rw [filter_cons_of_pos (by simpa using hne), tail_eq hlast]
  intro h
  cases rs with
  | nil =>
    obtain rfl : r = last := by simpa using hlast
    simp only [lead, gaps, nil_append] at h
    split at h
    · obtain ⟨hlead, hnil⟩ := List.cons.inj h
      have hzero : total - r.2 = 0 := by simpa using filter_eq_nil_iff.1 hnil.symm
      omega
    · cases h
  | cons s rs =>
    have hhead := congrArg List.head? h
    simp only [lead, if_pos hne, cons_append, head?_cons, Option.some_inj] at hhead
    omega

end

end Preview

open Preview

/-- What is counted before, between and behind clips are the holes that they leave in their source
exactly if the first clip begins it, no two clips touch, and the end of the last clip lies before
the end of the source in ticks just if it does so in ticks times the base, which it is compared
with. Else the sum is off by the first clip, or by what lies before it if it is the only one, and by
what is not noticed behind the last one. -/
theorem Timeline.cuts_holes_iff {t : Timeline} {c last : AudioClip} {cs : List AudioClip}
    {layers : List (List AudioClip)} {total : Int} (ha : t.a = (c :: cs) :: layers)
    (hlast : (c :: cs).getLast? = some last) (h : Within 0 total (ranges (c :: cs))) :
    ∃ lens, t.cuts total = .ok lens ∧
      (holeLengths total (ranges (c :: cs))).sum + ((c :: cs).map (·.dur)).sum = total ∧
      (lens = holeLengths total (ranges (c :: cs)) ↔
        c.offset = 0 ∧ (c :: cs).IsChain (fun d e => d.offset + d.dur ≠ e.offset) ∧
        (last.offset + last.dur < total ↔
          last.offset + last.dur < Exact.round (total * t.tb))) ∧
      lens.sum + ((c :: cs).map (·.dur)).sum = total +
        (if c.offset = 0 then 0 else if cs = [] then -c.offset else c.dur) -
        (if last.offset + last.dur < Exact.round (total * t.tb) then 0
          else total - (last.offset + last.dur)) := by
  have hcuts : t.cuts total = .ok (Preview.cuts (c :: cs) t.tb total) := by
    rw [cuts, firstSound, ha]
    rfl
  have hend : (ranges (c :: cs)).getLast? = some (last.offset, last.offset + last.dur) := by
    rw [ranges, List.getLast?_map, hlast]
    rfl
  have hholes : lengths (holes 0 total (ranges (c :: cs))) =
      c.offset :: (gaps (ranges (c :: cs)) ++ [total - (last.offset + last.dur)]) := by
    rw [← sub_zero c.offset]
    exact lengths_holes hend
  have hchain : (c :: cs).IsChain (fun d e => d.offset + d.dur ≠ e.offset) ↔
      ∀ g ∈ gaps (ranges (c :: cs)), g ≠ 0 := by
    rw [gaps_ne_zero_iff, ranges, List.isChain_map]
  refine ⟨_, hcuts, ?_, ?_, ?_⟩
  · rw [← lengths_ranges, sum_holeLengths]
  · rw [holeLengths, hholes, Preview.cuts, hchain]
    by_cases hzero : c.offset = 0
    · have hlead : lead (ranges (c :: cs)) = [] := by
        cases cs with
        | nil => rfl
        | cons d ds => exact if_neg (not_not_intro hzero)
      rw [hlead, tail_eq hend, hzero, List.filter_cons_of_neg (by decide), List.nil_append,
        counted_from_zero_iff (h.last_le hend)]
      simp
    · simp only [hzero, false_and, iff_false]
      exact not_counted_of_ne_zero h.2.1 hzero hend
  · have hsum := sum_holes 0 total (ranges (c :: cs))
    rw [hholes, lengths_ranges] at hsum
    have hlead : (lead (ranges (c :: cs))).sum - c.offset =
        if c.offset = 0 then 0 else if cs = [] then -c.offset else c.dur := by
      cases cs with
      | nil => by_cases hzero : c.offset = 0 <;> simp [lead, ranges, hzero]
      | cons d ds => by_cases hzero : c.offset = 0 <;> simp [lead, ranges, hzero]
    have htail : (tail t.tb total (ranges (c :: cs))).sum =
        (total - (last.offset + last.dur)) -
          if last.offset + last.dur < Exact.round (total * t.tb) then 0
          else total - (last.offset + last.dur) := by
      rw [tail_eq hend]
      split <;> simp
    rw [Preview.cuts, ← hlead]
    simp only [List.sum_cons, List.sum_append, List.sum_nil] at hsum ⊢
    linarith

def twoClips (offset : Int) : Timeline where
  sources := []
  tb := 30
  rate := 48000
  resolution := (4, 2)
  background := "#000"
  v := []
  a := [[⟨0, 5, .text "0", offset, 1, .number 1, 0⟩, ⟨5, 5, .text "0", 20, 1, .number 1, 0⟩]]
  chunks := none

theorem Timeline.cuts_holes_iff_two_clips :
    Within 0 30 [(0, 5), (20, 25)] ∧
      ∃ lens, (twoClips 0).cuts 30 = .ok lens ∧ lens = holeLengths 30 [(0, 5), (20, 25)] ∧
        lens.sum + 10 = 30 := by
  have hwithin : Within 0 30 [(0, 5), (20, 25)] := by simp [Within]
  obtain ⟨lens, hlens, hbalance, hholes, -⟩ := cuts_holes_iff (t := twoClips 0) rfl rfl hwithin
  have heq := hholes.2 ⟨rfl, by simp, by decide +kernel⟩
  exact ⟨hwithin, lens, hlens, heq, by rw [heq]; exact hbalance⟩

theorem Timeline.cuts_lead_of_two_clips :
    Within 0 30 [(5, 10), (20, 25)] ∧ holeLengths 30 [(5, 10), (20, 25)] = [5, 10, 5] ∧
      (twoClips 5).cuts 30 = .ok [10, 10, 5] :=
  ⟨by simp [Within], by decide, by decide +kernel⟩

end Jumpcut
