import Jumpcut.Flags.Basic
import Mathlib.Data.Nat.Find
import Mathlib.Tactic.MkIffOfInductiveProp

/-!
Runs of flags and what becomes of them when short ones are dropped. A run in the middle is dropped
if it is shorter than the limit, a run at the end also if it has exactly the limit's length. Two
such passes, first over the clips and then over the cuts, leave nothing for a third.
-/
namespace Jumpcut.Flags

open List

/-- A longest stretch of ticks of one value: those from `lo` up to, not including, `hi` have it, and
the ticks next to them do not. -/
@[mk_iff]
structure IsRun (v : Bool) (xs : Flags) (lo hi : Nat) : Prop where
  nonempty : lo < hi
  value : ∀ k < hi, lo ≤ k → xs[k]? = some v
  before : 0 < lo → xs[lo - 1]? ≠ some v
  after : xs[hi]? ≠ some v

instance (v : Bool) (xs : Flags) (lo hi : Nat) : Decidable (IsRun v xs lo hi) :=
  decidable_of_iff _ (isRun_iff v xs lo hi).symm

/-- The length that a run is taken to have among `n` ticks: at the end one tick less. -/
def counted (n lo hi : Nat) : Int := if hi = n then (hi : Int) - lo - 1 else (hi : Int) - lo

theorem counted_le (n lo hi : Nat) : counted n lo hi ≤ (hi : Int) - lo := by
  rw [counted]
  split <;> omega

theorem counted_mono {n lo hi lo' hi' : Nat} (hlo : lo ≤ lo') (hhi : hi' ≤ hi) (hn : hi ≤ n) :
    counted n lo' hi' ≤ counted n lo hi := by
  rw [counted, counted]
  split <;> split <;> omega

theorem getElem?_eq_not_iff {v : Bool} {xs : Flags} {k : Nat} (hk : k < xs.length) :
    xs[k]? = some (!v) ↔ xs[k]? ≠ some v := by
  rw [getElem?_eq_getElem hk, Ne, Option.some.injEq, Option.some.injEq]
  exact Bool.eq_not

section Runs

variable {v : Bool} {xs : Flags} {lo hi lo' hi' a b k : Nat}

theorem lt_length_of_getElem? (h : xs[k]? = some v) : k < xs.length :=
  (List.getElem?_eq_some_iff.1 h).1

theorem IsRun.hi_le (h : IsRun v xs lo hi) : hi ≤ xs.length := by
  have hlast := h.value (hi - 1) (by have := h.nonempty; omega) (by have := h.nonempty; omega)
  have := lt_length_of_getElem? hlast
  omega

theorem IsRun.covers (h : IsRun v xs lo hi) (hlo : lo ≤ k) (hhi : k < hi) (ha : a ≤ k) (hb : k < b)
    (hall : ∀ j < b, a ≤ j → xs[j]? = some v) : lo ≤ a ∧ b ≤ hi := by
  constructor
  · by_contra hlt
    exact h.before (by omega) (hall (lo - 1) (by omega) (by omega))
  · by_contra hlt
    exact h.after (hall hi (by omega) (by omega))

theorem IsRun.eq_of_mem (h : IsRun v xs lo hi) (h' : IsRun v xs lo' hi') (hlo : lo ≤ k)
    (hhi : k < hi) (hlo' : lo' ≤ k) (hhi' : k < hi') : lo = lo' ∧ hi = hi' := by
  have hin := h.covers hlo hhi hlo' hhi' h'.value
  have hout := h'.covers hlo' hhi' hlo hhi h.value
  omega

theorem exists_isRun (h : xs[k]? = some v) : ∃ lo hi, IsRun v xs lo hi ∧ lo ≤ k ∧ k < hi := by
  classical
  -- The run begins where the value first lasts up to `k`, and ends at the first tick without it.
  have hself : ∀ j ≤ k, k ≤ j → xs[j]? = some v := fun j hj hk => Nat.le_antisymm hj hk ▸ h
  have hstart : ∃ l, ∀ j ≤ k, l ≤ j → xs[j]? = some v := ⟨k, hself⟩
  have hstop : ∃ e, k < e ∧ xs[e]? ≠ some v :=
    ⟨xs.length, lt_length_of_getElem? h, by simp⟩
  have hle : Nat.find hstart ≤ k := Nat.find_le hself
  refine ⟨Nat.find hstart, Nat.find hstop, ⟨?_, ?_, ?_, (Nat.find_spec hstop).2⟩, hle,
    (Nat.find_spec hstop).1⟩
  · exact Nat.lt_of_le_of_lt hle (Nat.find_spec hstop).1
  · intro j hj hlo
    by_cases hjk : j ≤ k
    · exact Nat.find_spec hstart j hjk hlo
    · by_contra hne
      exact Nat.find_min hstop hj ⟨by omega, hne⟩
  · intro hpos hprev
    refine Nat.find_min hstart (Nat.sub_one_lt (by omega)) fun j hj hlo => ?_
    by_cases heq : j = Nat.find hstart - 1
    · rw [heq, hprev]
    · exact Nat.find_spec hstart j hj (by omega)

end Runs

section DropShort

variable {v w x : Bool} {lim : Int} {xs : Flags} {n lo hi k : Nat}

/-- Flags end in a run, which may be empty, or have a run in front of a tick of another value. -/
@[elab_as_elim]
theorem front_induction {motive : Flags → Prop} (v : Bool) (ends : ∀ n, motive (replicate n v))
    (goes : ∀ n x xs, x ≠ v → motive xs → motive (replicate n v ++ x :: xs)) (xs : Flags) :
    motive xs := by
  suffices hall : ∀ n, motive (replicate n v ++ xs) from hall 0
  induction xs with
  | nil => simpa using ends
  | cons x xs ih =>
    intro n
    by_cases hx : x = v
    · rw [hx]
      have hlonger := ih (n + 1)
      rwa [replicate_succ', append_assoc, singleton_append] at hlonger
    · exact goes n x xs hx (ih 0)

theorem dropShortFrom_replicate_append (v w : Bool) (lim : Int) (m n : Nat) (xs : Flags) :
    dropShortFrom v w lim m (replicate n v ++ xs) = dropShortFrom v w lim (m + n) xs := by
  induction n generalizing m with
  | zero => rfl
  | succ n ih =>
    rw [replicate_succ, cons_append, dropShortFrom, if_pos rfl, ih]
    congr 1
    omega

theorem dropShort_replicate (v w : Bool) (lim : Int) (n : Nat) :
    dropShort v w lim (replicate n v) = run v w lim n ((n : Int) - 1) := by
  have h := dropShortFrom_replicate_append v w lim 0 n []
  rwa [append_nil, Nat.zero_add, dropShortFrom] at h

theorem dropShort_front (hx : x ≠ v) (n : Nat) (xs : Flags) :
    dropShort v w lim (replicate n v ++ x :: xs) =
      run v w lim n n ++ x :: dropShort v w lim xs := by
  rw [dropShort, dropShortFrom_replicate_append, Nat.zero_add, dropShortFrom, if_neg hx, dropShort]

theorem length_dropShort (v w : Bool) (lim : Int) (xs : Flags) :
    (dropShort v w lim xs).length = xs.length := by
  induction xs using front_induction v with
  | ends n => simp [dropShort_replicate, run]
  | goes n x xs hx ih => simp [dropShort_front hx, run, ih]

theorem getElem?_front (v x : Bool) (n : Nat) (xs : Flags) (k : Nat) :
    (replicate n v ++ x :: xs)[k]? =
      if k < n then some v else if k = n then some x else xs[k - (n + 1)]? := by
  rcases Nat.lt_trichotomy k n with hlt | rfl | hgt
  · rw [if_pos hlt, getElem?_append_left (by simpa), getElem?_replicate_of_lt hlt]
  · simp
  · obtain ⟨d, rfl⟩ := Nat.exists_eq_add_of_lt hgt
    rw [if_neg (by omega), if_neg (by omega), getElem?_append_right (by simp; omega),
      length_replicate, show n + d + 1 - n = d + 1 by omega, getElem?_cons_succ]
    congr 1
    omega

theorem getElem?_front_add (v x : Bool) (n : Nat) (xs : Flags) (k : Nat) :
    (replicate n v ++ x :: xs)[k + (n + 1)]? = xs[k]? := by
  rw [getElem?_front, if_neg (by omega), if_neg (by omega), Nat.add_sub_cancel]

theorem IsRun.replicate (h : IsRun v (replicate n v) lo hi) : lo = 0 ∧ hi = n := by
  have hle := h.hi_le
  rw [length_replicate] at hle
  have hhi : ¬ hi < n := fun hlt => h.after (getElem?_replicate_of_lt hlt)
  have hlo : ¬ 0 < lo := by
    intro hpos
    have hne := h.nonempty
    exact h.before hpos (getElem?_replicate_of_lt (by omega))
  omega

theorem IsRun.front_or_later (hx : x ≠ v) (h : IsRun v (List.replicate n v ++ x :: xs) lo hi) :
    lo = 0 ∧ hi = n ∨ ∃ lo' hi', lo = lo' + (n + 1) ∧ hi = hi' + (n + 1) ∧ IsRun v xs lo' hi' := by
  have hne := h.nonempty
  have hgap : lo ≤ n → hi ≤ n := by
    intro hlo
    by_contra hlt
    have hn := h.value n (by omega) hlo
    rw [getElem?_front, if_neg (by omega), if_pos rfl] at hn
    exact hx (Option.some.inj hn)
  by_cases hlo : lo ≤ n
  · have hhi : ¬ hi < n := by
      intro hlt
      refine h.after ?_
      rw [getElem?_front, if_pos hlt]
    have hzero : ¬ 0 < lo := by
      intro hpos
      refine h.before hpos ?_
      rw [getElem?_front, if_pos (by omega)]
    left
    omega
  · obtain ⟨lo', rfl⟩ := Nat.exists_eq_add_of_le' (Nat.lt_of_not_le hlo)
    obtain ⟨hi', rfl⟩ := Nat.exists_eq_add_of_le' (show n + 1 ≤ hi by omega)
    refine .inr ⟨lo', hi', rfl, rfl, by omega, ?_, ?_, ?_⟩
    · intro k hk hlo'
      have := h.value (k + (n + 1)) (by omega) (by omega)
      rwa [getElem?_front_add] at this
    · intro hpos
      have := h.before (by omega)
      rwa [show lo' + (n + 1) - 1 = lo' - 1 + (n + 1) by omega, getElem?_front_add] at this
    · have := h.after
      rwa [getElem?_front_add] at this

theorem getElem?_dropShort_of_ne (h : xs[k]? ≠ some v) : (dropShort v w lim xs)[k]? = xs[k]? := by
  induction xs using front_induction v generalizing k with
  | ends n =>
    have hk : ¬ k < n := fun hlt => h (getElem?_replicate_of_lt hlt)
    simp [dropShort_replicate, run, Nat.le_of_not_lt hk]
  | goes n x xs hx ih =>
    rw [getElem?_front] at h ⊢
    rw [dropShort_front hx, run, getElem?_front]
    split
    · next hk => simp [hk] at h
    · split
      · rfl
      · next hk hkn => exact ih (by simpa [hk, hkn] using h)

theorem IsRun.getElem?_dropShort (h : IsRun v xs lo hi) (hlo : lo ≤ k) (hhi : k < hi) :
    (dropShort v w lim xs)[k]? = some (if counted xs.length lo hi < lim then w else v) := by
  induction xs using front_induction v generalizing lo hi k with
  | ends n =>
    obtain ⟨rfl, rfl⟩ := h.replicate
    simp [dropShort_replicate, run, counted, hhi]
  | goes n x xs hx ih =>
    rw [dropShort_front hx, run, getElem?_front]
    obtain ⟨rfl, rfl⟩ | ⟨lo', hi', rfl, rfl, hlater⟩ := h.front_or_later hx
    · simp [hhi, counted]
    · have hk := ih hlater (show lo' ≤ k - (n + 1) by omega) (by omega)
      rw [if_neg (by omega), if_neg (by omega), hk]
      have hsame : counted (List.replicate n v ++ x :: xs).length (lo' + (n + 1)) (hi' + (n + 1)) =
          counted xs.length lo' hi' := by
        simp only [counted, length_append, length_replicate, length_cons]
        split <;> split <;> omega
      rw [hsame]

theorem getElem?_dropShort_cases (v w : Bool) (lim : Int) (xs : Flags) (k : Nat) :
    (xs[k]? ≠ some v ∧ (dropShort v w lim xs)[k]? = xs[k]?) ∨
      ∃ lo hi, IsRun v xs lo hi ∧ lo ≤ k ∧ k < hi ∧ xs[k]? = some v ∧
        (dropShort v w lim xs)[k]? = some (if counted xs.length lo hi < lim then w else v) := by
  by_cases hv : xs[k]? = some v
  · obtain ⟨lo, hi, hrun, hlo, hhi⟩ := exists_isRun hv
    exact .inr ⟨lo, hi, hrun, hlo, hhi, hv, hrun.getElem?_dropShort hlo hhi⟩
  · exact .inl ⟨hv, getElem?_dropShort_of_ne hv⟩

theorem getElem?_dropShort_ne_iff :
    (dropShort v (!v) lim xs)[k]? ≠ xs[k]? ↔
      ∃ lo hi, IsRun v xs lo hi ∧ lo ≤ k ∧ k < hi ∧ counted xs.length lo hi < lim := by
  constructor
  · intro hne
    obtain ⟨-, hsame⟩ | ⟨lo, hi, hrun, hlo, hhi, hv, hk⟩ :=
      getElem?_dropShort_cases v (!v) lim xs k
    · exact absurd hsame hne
    · refine ⟨lo, hi, hrun, hlo, hhi, ?_⟩
      by_contra hlong
      rw [hk, hv, if_neg hlong] at hne
      exact hne rfl
  · rintro ⟨lo, hi, hrun, hlo, hhi, hshort⟩
    rw [hrun.getElem?_dropShort hlo hhi, if_pos hshort, hrun.value k hhi hlo]
    simp

/-- Exactly the runs that are shorter than the limit are replaced if and only if the flags do not
end in a run of the limit's length: such a run is replaced too. -/
theorem dropShort_short_runs_iff (v : Bool) (lim : Int) (xs : Flags) :
    (∀ k, (dropShort v (!v) lim xs)[k]? ≠ xs[k]? ↔
        ∃ lo hi, IsRun v xs lo hi ∧ lo ≤ k ∧ k < hi ∧ (hi : Int) - lo < lim) ↔
      ¬ ∃ lo, IsRun v xs lo xs.length ∧ (xs.length : Int) - lo = lim := by
  simp only [getElem?_dropShort_ne_iff]
  constructor
  · rintro hall ⟨lo, hrun, hlen⟩
    have hshort : counted xs.length lo xs.length < lim := by
      rw [counted, if_pos rfl]
      omega
    obtain ⟨lo', hi', hrun', hlo', hhi', hshort'⟩ :=
      (hall lo).1 ⟨lo, xs.length, hrun, Nat.le_refl _, hrun.nonempty, hshort⟩
    obtain ⟨rfl, rfl⟩ := hrun.eq_of_mem hrun' (Nat.le_refl _) hrun.nonempty hlo' hhi'
    omega
  · intro hend k
    constructor
    · rintro ⟨lo, hi, hrun, hlo, hhi, hshort⟩
      refine ⟨lo, hi, hrun, hlo, hhi, ?_⟩
      rw [counted] at hshort
      split at hshort
      · next hlast =>
        subst hlast
        have hne : (xs.length : Int) - lo ≠ lim := fun hlen => hend ⟨lo, hrun, hlen⟩
        omega
      · exact hshort
    · rintro ⟨lo, hi, hrun, hlo, hhi, hshort⟩
      exact ⟨lo, hi, hrun, hlo, hhi, Int.lt_of_le_of_lt (counted_le _ _ _) hshort⟩

theorem dropShort_last_run :
    dropShort true false 2 [true, true, false, true, true] = [true, true, false, false, false] ∧
      IsRun true [true, true, false, true, true] 3 5 ∧ ¬ ((5 : Int) - 3 < 2) := by
  decide

end DropShort

section Cook

variable {v : Bool} {lim minClip minCut : Int} {xs : Flags} {lo hi k : Nat}

def Lasting (v : Bool) (lim : Int) (xs : Flags) : Prop :=
  ∀ lo hi, IsRun v xs lo hi → lim ≤ counted xs.length lo hi

theorem Lasting.dropShort_eq (h : Lasting v lim xs) (w : Bool) : dropShort v w lim xs = xs := by
  refine ext_getElem? fun k => ?_
  obtain ⟨-, hsame⟩ | ⟨lo, hi, hrun, -, -, hv, hk⟩ := getElem?_dropShort_cases v w lim xs k
  · exact hsame
  · have hlong := h lo hi hrun
    rw [hk, if_neg (by omega), hv]

theorem exists_kept_run (h : (dropShort v (!v) lim xs)[k]? = some v) :
    ∃ lo hi, lo ≤ k ∧ k < hi ∧ lim ≤ counted xs.length lo hi ∧
      ∀ j < hi, lo ≤ j → (dropShort v (!v) lim xs)[j]? = some v := by
  obtain ⟨hother, hsame⟩ | ⟨lo, hi, hrun, hlo, hhi, -, hk⟩ :=
    getElem?_dropShort_cases v (!v) lim xs k
  · exact absurd (hsame.symm.trans h) hother
  · have hlong : ¬ counted xs.length lo hi < lim := by
      intro hshort
      rw [hk, if_pos hshort] at h
      simp at h
    refine ⟨lo, hi, hlo, hhi, by omega, fun j hj hlo' => ?_⟩
    rw [hrun.getElem?_dropShort hlo' hj, if_neg hlong]

theorem lasting_dropShort (v : Bool) (lim : Int) (xs : Flags) :
    Lasting v lim (dropShort v (!v) lim xs) := by
  intro lo hi hrun
  obtain ⟨lo', hi', hlo', hhi', hlong, hkept⟩ :=
    exists_kept_run (hrun.value lo hrun.nonempty (Nat.le_refl _))
  have hcover := hrun.covers (Nat.le_refl _) hrun.nonempty hlo' hhi' hkept
  have hle := hrun.hi_le
  rw [length_dropShort] at hle ⊢
  exact Int.le_trans hlong (counted_mono hcover.1 hcover.2 hle)

theorem IsRun.of_dropShort (h : IsRun (!v) (dropShort v (!v) lim xs) lo hi) :
    lo = 0 ∧ hi = xs.length ∨ ∃ lo' hi', IsRun (!v) xs lo' hi' ∧ lo ≤ lo' ∧ hi' ≤ hi := by
  have hother {j : Nat} (hj : xs[j]? = some (!v)) : (dropShort v (!v) lim xs)[j]? = some (!v) := by
    rw [getElem?_dropShort_of_ne (by simp [hj]), hj]
  by_cases hold : ∃ k < hi, lo ≤ k ∧ xs[k]? = some (!v)
  · obtain ⟨k, hhi, hlo, hk⟩ := hold
    obtain ⟨lo', hi', hrun, hlo', hhi'⟩ := exists_isRun hk
    have hcover := h.covers hlo hhi hlo' hhi' fun j hj hlo => hother (hrun.value j hj hlo)
    exact .inr ⟨lo', hi', hrun, hcover.1, hcover.2⟩
  · left
    have hle := h.hi_le
    rw [length_dropShort] at hle
    have hnew : ∀ j < hi, lo ≤ j → xs[j]? = some v := by
      intro j hj hlo
      have hj' : j < xs.length := by omega
      simpa using (getElem?_eq_not_iff hj').2 fun hk => hold ⟨j, hj, hlo, hk⟩
    -- All its ticks are new, so it is one run that was replaced, with nothing next to it.
    have hrun : IsRun v xs lo hi := by
      have hlt := h.nonempty
      have hchange : (dropShort v (!v) lim xs)[lo]? ≠ xs[lo]? := by
        rw [h.value lo hlt (Nat.le_refl _), hnew lo hlt (Nat.le_refl _)]
        simp
      obtain ⟨lo', hi', hrun, hlo', hhi', hshort⟩ := getElem?_dropShort_ne_iff.1 hchange
      have hin := hrun.covers hlo' hhi' (Nat.le_refl _) hlt hnew
      have hout := h.covers (Nat.le_refl _) hlt hlo' hhi' fun j hj hlo => by
        rw [hrun.getElem?_dropShort hlo hj, if_pos hshort]
      obtain rfl : lo = lo' := by omega
      obtain rfl : hi = hi' := by omega
      exact hrun
    constructor
    · by_contra hpos
      refine h.before (by omega) (hother ((getElem?_eq_not_iff ?_).2 (hrun.before (by omega))))
      have := hrun.nonempty
      omega
    · by_contra hlast
      exact h.after (hother ((getElem?_eq_not_iff (by omega)).2 hrun.after))

theorem length_cook (minClip minCut : Int) (xs : Flags) :
    (cook minClip minCut xs).length = xs.length := by
  rw [cook, length_dropShort, length_dropShort]

theorem lasting_cook_or (minClip minCut : Int) (xs : Flags) :
    Lasting true minClip (cook minClip minCut xs) ∨
      IsRun true (cook minClip minCut xs) 0 xs.length ∧
        counted xs.length 0 xs.length < minClip ∧
        ∀ k : Nat, (dropShort true false minClip xs)[k]? ≠ some true := by
  by_cases hlast : Lasting true minClip (cook minClip minCut xs)
  · exact .inl hlast
  · right
    simp only [Lasting, not_forall, Int.not_le, length_cook] at hlast
    obtain ⟨lo, hi, hrun, hshort⟩ := hlast
    have hle := hrun.hi_le
    rw [length_cook] at hle
    have hnone : ∀ lo' hi', IsRun true (dropShort true false minClip xs) lo' hi' → lo ≤ lo' →
        ¬ hi' ≤ hi := by
      intro lo' hi' hrun' hlo hhi
      have hlong := lasting_dropShort true minClip xs lo' hi' hrun'
      have hmono := counted_mono hlo hhi hle
      rw [length_dropShort] at hlong
      omega
    obtain ⟨rfl, rfl⟩ | ⟨lo', hi', hrun', hlo, hhi⟩ := @IsRun.of_dropShort false _ _ _ _ hrun
    · rw [length_dropShort] at hrun hshort hnone
      refine ⟨hrun, hshort, fun k hk => ?_⟩
      obtain ⟨lo', hi', hrun', -, -⟩ := exists_isRun hk
      have hle' := hrun'.hi_le
      rw [length_dropShort] at hle'
      exact hnone lo' hi' hrun' (Nat.zero_le _) hle'
    · exact absurd hhi (hnone lo' hi' hrun' hlo)

theorem cook_cook (minClip minCut : Int) (xs : Flags) :
    cook minClip minCut (cook minClip minCut xs) = cook minClip minCut xs := by
  have hcuts : Lasting false minCut (cook minClip minCut xs) := lasting_dropShort false minCut _
  obtain hclips | ⟨hrun, hshort, hblank⟩ := lasting_cook_or minClip minCut xs
  · rw [cook, hclips.dropShort_eq, hcuts.dropShort_eq]
  · have hagain : dropShort true false minClip (cook minClip minCut xs) =
        dropShort true false minClip xs := by
      refine ext_getElem? fun k => ?_
      by_cases hk : k < xs.length
      · rw [hrun.getElem?_dropShort (Nat.zero_le _) hk, length_cook, if_pos hshort]
        exact ((getElem?_eq_not_iff (by rwa [length_dropShort])).2 (hblank k)).symm
      · rw [getElem?_eq_none, getElem?_eq_none]
        · rw [length_dropShort]
          omega
        · rw [length_dropShort, length_cook]
          omega
    rw [cook, hagain, ← cook]

/-- Cooking twice is cooking once; no cut is left that is too short, and no clip unless all is one
clip. -/
theorem cook_settles (minClip minCut : Int) (xs : Flags) :
    cook minClip minCut (cook minClip minCut xs) = cook minClip minCut xs ∧
      (∀ lo hi, IsRun false (cook minClip minCut xs) lo hi → minCut ≤ (hi : Int) - lo) ∧
      ((∀ x ∈ cook minClip minCut xs, x = true) ∨
        ∀ lo hi, IsRun true (cook minClip minCut xs) lo hi → minClip ≤ (hi : Int) - lo) := by
  refine ⟨cook_cook minClip minCut xs, fun lo hi hrun => ?_, ?_⟩
  · exact Int.le_trans (lasting_dropShort false minCut _ lo hi hrun) (counted_le _ _ _)
  · obtain hclips | ⟨hrun, -, -⟩ := lasting_cook_or minClip minCut xs
    · exact .inr fun lo hi hrun => Int.le_trans (hclips lo hi hrun) (counted_le _ _ _)
    · left
      intro x hx
      obtain ⟨k, hk⟩ := mem_iff_getElem?.1 hx
      have hlt := lt_length_of_getElem? hk
      rw [length_cook] at hlt
      rw [hrun.value k hlt (Nat.zero_le _)] at hk
      exact (Option.some.inj hk).symm

example : cook 3 3 [true, true] = [true, true] := by decide

end Cook

end Jumpcut.Flags
