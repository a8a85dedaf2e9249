import Jumpcut.Proofs.ClipLaws
import Jumpcut.Proofs.NearestLaws

namespace Jumpcut

open Outcome
open List hiding length

namespace Exact

/-- An integer is nearest to a number, and even if another one is as near. -/
structure RoundsTo (q : Rat) (n : Int) : Prop where
  near : |(n : Rat) - q| ≤ 1 / 2
  tie : |(n : Rat) - q| = 1 / 2 → Even n

theorem roundsTo_iff {q : Rat} {n : Int} : RoundsTo q n ↔ round q = n := by
  constructor
  · intro h
    exact round_eq_of h.near fun htie => Int.even_iff.1 (h.tie htie)
  · rintro rfl
    exact ⟨abs_round_sub_le q, fun htie => Int.even_iff.2 (round_even htie)⟩

end Exact

namespace Chunk

/-- The exact time at which the kept chunk with a number begins: when all those before it have been
shown. -/
def beginning (start : Rat) (cs : List Chunk) (i : Nat) : Rat :=
  start + (((kept cs).take i).map span).sum

theorem getElem?_schedule (start : Rat) (cs : List Chunk) (i : Nat) :
    (schedule start cs)[i]? = (kept cs)[i]?.map fun c => (beginning start cs i, c) := by
  induction cs generalizing start i with
  | nil => rfl
  | cons c cs ih =>
    cases hc : c.isCut with
    | true =>
      have hkept : kept (c :: cs) = kept cs := by simp [kept, hc]
      simp only [schedule, hc, if_true, hkept, beginning]
      exact ih start i
    | false =>
      have hkept : kept (c :: cs) = c :: kept cs := by simp [kept, hc]
      simp only [schedule, hc, hkept, beginning]
      cases i with
      | zero => simp
      | succ i =>
        rw [if_neg (by simp), getElem?_cons_succ, getElem?_cons_succ, ih]
        simp [beginning, add_assoc]

theorem start_le_of_mem_schedule {start : Rat} {cs : List Chunk}
    (hspan : ∀ c ∈ cs, 0 ≤ c.span) {p : Rat × Chunk} (hp : p ∈ schedule start cs) :
    start ≤ p.1 := by
  induction cs generalizing start with
  | nil => cases hp
  | cons c cs ih =>
    rw [forall_mem_cons] at hspan
    rw [schedule] at hp
    split at hp
    · exact ih hspan.2 hp
    · rcases mem_cons.1 hp with rfl | hp
      · exact le_refl _
      · exact (le_add_of_nonneg_right hspan.1).trans (ih hspan.2 hp)

theorem schedule_ordered {start : Rat} {cs : List Chunk} (hspan : ∀ c ∈ cs, 0 ≤ c.span) :
    (schedule start cs).Pairwise fun p r => p.1 ≤ r.1 := by
  induction cs generalizing start with
  | nil => exact .nil
  | cons c cs ih =>
    rw [forall_mem_cons] at hspan
    rw [schedule]
    split
    · exact ih hspan.2
    · refine .cons ?_ (ih hspan.2)
      intro p hp
      exact (le_add_of_nonneg_right hspan.1).trans (start_le_of_mem_schedule hspan.2 hp)

end Chunk

namespace Clip

open Chunk

def pickNumbered (src : String) (first : Bool) (last : Option Int) (k : Nat) :
    List (Rat × Chunk) → List (Nat × Clip)
  | [] => []
  | (s, c) :: ps =>
    if last = some (Exact.round s) then pickNumbered src false last (k + 1) ps
    else
      (k, ⟨Exact.round s, c.length, if first then c.start else c.start + 1, c.speed, src⟩) ::
        pickNumbered src false (some (Exact.round s)) (k + 1) ps

def lastStart (last : Option Int) (shown : List (Nat × Clip)) (i : Nat) : Option Int :=
  ((shown.filter fun p => p.1 < i).getLast?.map fun p => p.2.start).or last

section Pick

variable {src : String} {first : Bool} {last : Option Int} {k : Nat} {ps : List (Rat × Chunk)}
  {p : Nat × Clip} {shown : List (Nat × Clip)}

theorem map_snd_pickNumbered :
    (pickNumbered src first last k ps).map Prod.snd = pick src first last ps := by
  induction ps generalizing first last k with
  | nil => rfl
  | cons p ps ih =>
    rw [pickNumbered, pick]
    split
    · exact ih
    · rw [map_cons, ih]

theorem exists_of_mem_pickNumbered (hp : p ∈ pickNumbered src first last k ps) :
    ∃ j s c, p.1 = k + j ∧ ps[j]? = some (s, c) ∧ p.2.start = Exact.round s ∧
      p.2.dur = c.length ∧ p.2.speed = c.speed := by
  induction ps generalizing first last k with
  | nil => cases hp
  | cons r ps ih =>
    obtain ⟨s, c⟩ := r
    have hlater {last : Option Int} (hp : p ∈ pickNumbered src false last (k + 1) ps) :
        ∃ j s' c', p.1 = k + j ∧ ((s, c) :: ps)[j]? = some (s', c') ∧
          p.2.start = Exact.round s' ∧ p.2.dur = c'.length ∧ p.2.speed = c'.speed := by
      obtain ⟨j, s', c', hj, hget, hclip⟩ := ih hp
      exact ⟨j + 1, s', c', by omega, hget, hclip⟩
    rw [pickNumbered] at hp
    split at hp
    · exact hlater hp
    · rcases mem_cons.1 hp with rfl | hp
      · exact ⟨0, s, c, rfl, rfl, rfl, rfl, rfl⟩
      · exact hlater hp

theorem le_of_mem_pickNumbered (hp : p ∈ pickNumbered src first last k ps) : k ≤ p.1 := by
  obtain ⟨j, -, -, hj, -⟩ := exists_of_mem_pickNumbered hp
  omega

theorem pickNumbered_ordered :
    (pickNumbered src first last k ps).Pairwise fun p r => p.1 < r.1 := by
  induction ps generalizing first last k with
  | nil => exact .nil
  | cons p ps ih =>
    rw [pickNumbered]
    split
    · exact ih
    · exact .cons (fun r hr => le_of_mem_pickNumbered hr) ih

theorem pickNumbered_rising (hps : ps.Pairwise fun p r => p.1 ≤ r.1)
    (hlast : ∀ n, last = some n → ∀ p ∈ ps, n ≤ Exact.round p.1) :
    (∀ n, last = some n → ∀ p ∈ pickNumbered src first last k ps, n < p.2.start) ∧
      (pickNumbered src first last k ps).Pairwise fun p r => p.2.start < r.2.start := by
  induction ps generalizing first last k with
  | nil => simp [pickNumbered]
  | cons p ps ih =>
    obtain ⟨s, c⟩ := p
    obtain ⟨hhead, htail⟩ := pairwise_cons.1 hps
    rw [pickNumbered]
    split
    · exact ih htail fun n hn p hp => hlast n hn p (mem_cons_of_mem _ hp)
    · next hnew =>
      obtain ⟨hbehind, hrising⟩ := @ih false (some (Exact.round s)) (k + 1) htail (by
        rintro n ⟨⟩ p hp
        exact Exact.round_mono (hhead p hp))
      have hfirst : ∀ n, last = some n → n < Exact.round s := by
        rintro n rfl
        exact lt_of_le_of_ne (hlast n rfl (s, c) mem_cons_self) fun h => hnew (by rw [h])
      refine ⟨?_, .cons (hbehind _ rfl) hrising⟩
      intro n hn p hp
      rcases mem_cons.1 hp with rfl | hp
      · exact hfirst n hn
      · exact (hfirst n hn).trans (hbehind _ rfl p hp)

theorem lastStart_cons {i : Nat} (hi : p.1 < i) :
    lastStart last (p :: shown) i = lastStart (some p.2.start) shown i := by
  rw [lastStart, lastStart, filter_cons_of_pos (by simpa using hi), getLast?_cons]
  cases (shown.filter fun r => r.1 < i).getLast? <;> rfl

theorem lastStart_of_le {i : Nat} (h : ∀ p ∈ shown, i ≤ p.1) : lastStart last shown i = last := by
  have hnone : (shown.filter fun p => p.1 < i) = [] := by
    rw [filter_eq_nil_iff]
    intro p hp
    simpa using h p hp
  rw [lastStart, hnone]
  rfl

theorem not_mem_pickNumbered_iff {j : Nat} {s : Rat} {c : Chunk} (hj : ps[j]? = some (s, c)) :
    k + j ∉ (pickNumbered src first last k ps).map Prod.fst ↔
      lastStart last (pickNumbered src first last k ps) (k + j) = some (Exact.round s) := by
  induction ps generalizing first last k j with
  | nil => cases hj
  | cons p ps ih =>
    obtain ⟨t, d⟩ := p
    cases j with
    | zero =>
      cases hj
      rw [Nat.add_zero, lastStart_of_le fun p hp => le_of_mem_pickNumbered hp, pickNumbered]
      split
      · next hlast =>
        refine iff_of_true ?_ hlast
        intro hmem
        obtain ⟨p, hp, hk⟩ := mem_map.1 hmem
        have := le_of_mem_pickNumbered hp
        omega
      · next hlast => exact iff_of_false (by simp) hlast
    | succ j =>
      have hshift : k + (j + 1) = k + 1 + j := by omega
      rw [hshift, pickNumbered]
      split
      · exact ih hj
      · have hbefore : k < k + 1 + j := by omega
        rw [lastStart_cons hbefore, ← ih hj, map_cons, mem_cons, not_or]
        exact and_iff_right hbefore.ne'

end Pick

/-- Clips are made of kept chunks, in order and with their lengths and speeds. Each starts at the
time, rounded, at which its chunk begins, and behind the clip before it; a chunk is left out exactly
if that tick is the start of the last clip before it. -/
theorem clips_start_rounded (src : String) (start : Rat) (cs : List Chunk)
    (hlen : ∀ c ∈ cs, 1 ≤ c.length) (hpace : ∀ c ∈ cs, c.HasPace) :
    ∃ shown : List (Nat × Clip),
      ofChunks src start cs = .ok (shown.map Prod.snd) ∧
      shown.Pairwise (fun p r => p.1 < r.1) ∧
      (∀ p ∈ shown, ∃ c, (kept cs)[p.1]? = some c ∧ p.2.dur = c.length ∧ p.2.speed = c.speed ∧
        Exact.RoundsTo (beginning start cs p.1) p.2.start) ∧
      shown.Pairwise (fun p r => p.2.start < r.2.start) ∧
      ∀ i < (kept cs).length, i ∉ shown.map Prod.fst ↔
        ∃ p, (shown.filter fun p => p.1 < i).getLast? = some p ∧
          Exact.RoundsTo (beginning start cs i) p.2.start := by
  have hspan : ∀ c ∈ cs, 0 ≤ c.span := fun c hc =>
    (hpace c hc).span_nonneg (Int.sub_pos.1 (hlen c hc))
  refine ⟨pickNumbered src true none 0 (schedule start cs), ?_, pickNumbered_ordered, ?_, ?_, ?_⟩
  · rw [map_snd_pickNumbered]
    exact ofChunksFrom_eq_pick hpace
  · intro p hp
    obtain ⟨j, s, c, hj, hget, hstart, hdur, hspeed⟩ := exists_of_mem_pickNumbered hp
    rw [Nat.zero_add] at hj
    rw [← hj, getElem?_schedule, Option.map_eq_some_iff] at hget
    obtain ⟨d, hd, heq⟩ := hget
    obtain ⟨rfl, rfl⟩ := Prod.mk.inj heq
    exact ⟨d, hd, hdur, hspeed, Exact.roundsTo_iff.2 hstart.symm⟩
  · exact (pickNumbered_rising (schedule_ordered hspan) (by simp)).2
  · intro i hi
    have hget : (schedule start cs)[i]? = some (beginning start cs i, (kept cs)[i]) := by
      rw [getElem?_schedule, List.getElem?_eq_getElem hi]
      rfl
    have hleft := @not_mem_pickNumbered_iff src true none 0 _ _ _ _ hget
    rw [Nat.zero_add] at hleft
    rw [hleft, lastStart, Option.or_none, Option.map_eq_some_iff]
    simp only [Exact.roundsTo_iff, eq_comm]

theorem clips_start_rounded_quarters :
    ([⟨0, 1, 4⟩, ⟨1, 3, 99999⟩, ⟨3, 4, 4⟩, ⟨4, 5, 4⟩] : List Chunk).all (1 ≤ ·.length) ∧
      ∃ shown : List (Nat × Clip),
        ofChunks "0" (1 / 2) [⟨0, 1, 4⟩, ⟨1, 3, 99999⟩, ⟨3, 4, 4⟩, ⟨4, 5, 4⟩] =
          .ok (shown.map Prod.snd) ∧
        shown.Pairwise fun p r => p.2.start < r.2.start := by
  obtain ⟨shown, hclips, -, -, hrising, -⟩ :=
    clips_start_rounded "0" (1 / 2) [⟨0, 1, 4⟩, ⟨1, 3, 99999⟩, ⟨3, 4, 4⟩, ⟨4, 5, 4⟩]
      (by simp [length]) (by simp [HasPace])
  exact ⟨by decide, shown, hclips, hrising⟩

end Clip

end Jumpcut
