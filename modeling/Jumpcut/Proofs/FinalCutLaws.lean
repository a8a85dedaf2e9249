import Jumpcut.Exchange.FinalCut
import Jumpcut.Proofs.KeyLaws
import Jumpcut.Proofs.PlaceLaws
import Jumpcut.Proofs.ShotcutLaws

/-!
Documents for Final Cut Pro. Times are written as fractions of a second, with the nearest fraction
of a small denominator for those of a large one. Clips follow the kept chunks, but each lasts a tick
more than its chunk, and the first one always begins its source.
-/
namespace Jumpcut

open Outcome Exact Number Chunk List

namespace FinalCut

/-! ### Fractions with small denominators -/

/-- Two successive approximations of `n / d`: a step of division takes `n / d` to the quotient of
what is left. -/
structure Convergents.Approach (bound : Nat) (q : Rat) (c : Convergents) (n : Int) (d : Nat) :
    Prop where
  num : q.num = c.p1 * n + c.p0 * d
  den : (q.den : Int) = c.q1 * n + c.q0 * d
  det : |c.p1 * c.q0 - c.p0 * c.q1| = 1
  q0_nonneg : 0 ≤ c.q0
  q0_le : c.q0 ≤ bound
  q1_pos : 0 < c.q1
  q1_le : c.q1 ≤ bound
  lt : (d : Int) < n

/-- The approximations between which the fraction lies when the next one is out of bound. -/
structure Convergents.Stops (bound : Nat) (q : Rat) (c : Convergents) (n : Int) (d : Nat) : Prop
    extends c.Approach bound q n d where
  d_pos : 0 < d
  out : (bound : Int) < c.q0 + n / d * c.q1

variable {bound d : Nat} {q : Rat} {c : Convergents} {n : Int}

theorem Convergents.Approach.step (h : c.Approach bound q n d) (hd : 0 < d)
    (hq : c.q0 + n / d * c.q1 ≤ bound) :
    Approach bound q ⟨c.p1, c.q1, c.p0 + n / d * c.p1, c.q0 + n / d * c.q1⟩ d
      (n % (d : Int)).toNat := by
  have hrest : ((n % (d : Int)).toNat : Int) = n % d :=
    Int.toNat_of_nonneg (Int.emod_nonneg n (by omega))
  have hdiv := Int.mul_ediv_add_emod n d
  have ha : 1 ≤ n / d := (Int.le_ediv_iff_mul_le (by omega)).2 (by have := h.lt; omega)
  have hpos : 0 < n / d * c.q1 := mul_pos (by omega) h.q1_pos
  refine ⟨?_, ?_, ?_, h.q1_pos.le, h.q1_le, ?_, hq, ?_⟩
  · rw [h.num, hrest]
    dsimp only
    linear_combination (-c.p1) * hdiv
  · rw [h.den, hrest]
    dsimp only
    linear_combination (-c.q1) * hdiv
  · rw [← h.det, ← abs_neg]
    congr 1
    dsimp only
    ring
  · have := h.q0_nonneg
    dsimp only
    omega
  · rw [hrest]
    exact Int.emod_lt_of_pos n (by omega)

theorem Convergents.Approach.stops (h : c.Approach bound q n d) (hq : bound < q.den) :
    ∃ m e, (convergents bound c n d).Stops bound q m e := by
  induction d using Nat.strong_induction_on generalizing c n with
  | _ d ih =>
    rw [convergents]
    by_cases hd : d = 0
    · subst hd
      have hnum : q.num = c.p1 * n := by simpa using h.num
      have hden : (q.den : Int) = c.q1 * n := by simpa using h.den
      have hone : n.natAbs = 1 := Nat.eq_one_of_dvd_coprimes q.reduced
        (Int.natAbs_dvd_natAbs.2 ⟨c.p1, by rw [hnum, mul_comm]⟩)
        (Int.natCast_dvd_natCast.1 (Int.natAbs_dvd.2 ⟨c.q1, by rw [hden, mul_comm]⟩))
      have hn : n = 1 := by
        have := h.lt
        omega
      have hle := h.q1_le
      rw [hn, mul_one] at hden
      omega
    · rw [if_neg hd]
      dsimp only
      split
      · next hout => exact ⟨n, d, { h with d_pos := by omega, out := by omega }⟩
      · next hin =>
        refine ih _ ?_ (h.step (by omega) (by omega))
        have h₁ := Int.emod_nonneg n (b := (d : Int)) (by omega)
        have h₂ := Int.emod_lt_of_pos n (b := (d : Int)) (by omega)
        omega

theorem le_or_ge_of_neighbours {a b c d : Int} (hb : 0 < b) (hd : 0 < d)
    (hdet : c * b - a * d = 1) {p : Rat} (hp : (p.den : Int) < b + d) :
    p ≤ a / b ∨ (c : Rat) / d ≤ p := by
  have hb' : (0 : Rat) < b := Int.cast_pos.2 hb
  have hd' : (0 : Rat) < d := Int.cast_pos.2 hd
  have hden : (0 : Rat) < p.den := Nat.cast_pos.2 p.den_pos
  by_contra hnot
  rw [not_or, not_le, not_le, div_lt_iff₀ hb', lt_div_iff₀ hd', ← Rat.num_div_den p,
    div_mul_eq_mul_div, div_mul_eq_mul_div, lt_div_iff₀ hden, div_lt_iff₀ hden] at hnot
  have hlo : a * p.den < p.num * b := by exact_mod_cast hnot.1
  have hhi : p.num * d < c * p.den := by exact_mod_cast hnot.2
  have hsum : (p.den : Int) = d * (p.num * b - a * p.den) + b * (c * p.den - p.num * d) := by
    linear_combination (-(p.den : Int)) * hdet
  have h₁ : d * 1 ≤ d * (p.num * b - a * p.den) := mul_le_mul_of_nonneg_left (by omega) hd.le
  have h₂ : b * 1 ≤ b * (c * p.den - p.num * d) := mul_le_mul_of_nonneg_left (by omega) hb.le
  omega

theorem between_neighbours {a b c d x y : Int} (hb : 0 < b) (hd : 0 < d)
    (hdet : c * b - a * d = 1) (hx : 0 < x) (hy : 0 < y) (hnum : q.num = a * x + c * y)
    (hden : (q.den : Int) = b * x + d * y) : (a : Rat) / b < q ∧ q < c / d := by
  have hpos : (0 : Rat) < q.den := Nat.cast_pos.2 q.den_pos
  have hlo : a * q.den < q.num * b := by
    have : q.num * b - a * q.den = y := by
      rw [hnum, hden]
      linear_combination y * hdet
    omega
  have hhi : q.num * d < c * q.den := by
    have : c * q.den - q.num * d = x := by
      rw [hnum, hden]
      linear_combination x * hdet
    omega
  rw [← Rat.num_div_den q, div_lt_div_iff₀ (Int.cast_pos.2 hb) hpos,
    div_lt_div_iff₀ hpos (Int.cast_pos.2 hd)]
  exact ⟨by exact_mod_cast hlo, by exact_mod_cast hhi⟩

/-- Two fractions around another one, with none of a denominator in bound between them. -/
structure Encloses (bound : Nat) (q lower upper : Rat) : Prop where
  lower_lt : lower < q
  lt_upper : q < upper
  empty : ∀ p : Rat, p.den ≤ bound → p ≤ lower ∨ upper ≤ p

theorem Convergents.Approach.last_bounds (h : c.Approach bound q n d) {k : Int}
    (hk : k = ((bound : Int) - c.q0).fdiv c.q1) :
    0 < c.q0 + k * c.q1 ∧ c.q0 + k * c.q1 ≤ bound ∧ bound < c.q0 + (k + 1) * c.q1 := by
  have hq1 := h.q1_pos
  rw [Int.fdiv_eq_ediv_of_nonneg _ hq1.le] at hk
  have hle := Int.ediv_mul_le (bound - c.q0) hq1.ne'
  have hlt := Int.lt_ediv_add_one_mul_self (bound - c.q0) hq1
  rw [← hk] at hle hlt
  have := h.q1_le
  exact ⟨by linarith, by linarith, by linarith⟩

theorem Convergents.Stops.encloses (h : c.Stops bound q n d) {k : Int}
    (hk : k = ((bound : Int) - c.q0).fdiv c.q1) :
    Encloses bound q ((c.p0 + k * c.p1 : Int) / (c.q0 + k * c.q1 : Int)) (c.p1 / c.q1) ∨
      Encloses bound q (c.p1 / c.q1) ((c.p0 + k * c.p1 : Int) / (c.q0 + k * c.q1 : Int)) := by
  have hq1 := h.q1_pos
  obtain ⟨hden, hle, hlt⟩ := h.last_bounds hk
  have hsmall : k < n / d := by
    have := h.out
    exact lt_of_mul_lt_mul_right (by linarith) hq1.le
  have hrest : 0 < n - k * d := by
    have h₁ := Int.ediv_mul_le n (b := (d : Int)) (by have := h.d_pos; omega)
    have h₂ : (k + 1) * d ≤ n / d * d := mul_le_mul_of_nonneg_right (by omega) (by omega)
    have := h.d_pos
    linarith
  have hnum : q.num = (c.p0 + k * c.p1) * d + c.p1 * (n - k * d) := by
    rw [h.num]
    ring
  have hden' : (q.den : Int) = (c.q0 + k * c.q1) * d + c.q1 * (n - k * d) := by
    rw [h.den]
    ring
  have hd : (0 : Int) < d := by exact_mod_cast h.d_pos
  have hout {p : Rat} (hp : p.den ≤ bound) : (p.den : Int) < c.q0 + k * c.q1 + c.q1 := by
    have : (p.den : Int) ≤ bound := by exact_mod_cast hp
    linarith
  -- The approximations take turns above and below, so either may be the lower neighbour.
  rcases eq_or_eq_neg_of_abs_eq h.det with hdet | hdet
  · have hdet' : c.p1 * (c.q0 + k * c.q1) - (c.p0 + k * c.p1) * c.q1 = 1 := by
      linear_combination hdet
    obtain ⟨hlo, hhi⟩ := between_neighbours hden hq1 hdet' hd hrest hnum hden'
    exact .inl ⟨hlo, hhi, fun p hp => le_or_ge_of_neighbours hden hq1 hdet' (hout hp)⟩
  · have hdet' : (c.p0 + k * c.p1) * c.q1 - c.p1 * (c.q0 + k * c.q1) = 1 := by
      linear_combination -hdet
    obtain ⟨hlo, hhi⟩ := between_neighbours hq1 hden hdet' hrest hd (by rw [hnum, add_comm])
      (by rw [hden', add_comm])
    exact .inr ⟨hlo, hhi, fun p hp => le_or_ge_of_neighbours hq1 hden hdet' (by
      have := hout hp
      linarith)⟩

theorem exists_stops (hbound : 0 < bound) (hq : bound < q.den) :
    ∃ m e, (convergents bound ⟨0, 1, 1, 0⟩ q.num q.den).Stops bound q m e := by
  have hden := q.den_pos
  have hrest : ((q.num % (q.den : Int)).toNat : Int) = q.num % q.den :=
    Int.toNat_of_nonneg (Int.emod_nonneg _ (by omega))
  have hdiv := Int.mul_ediv_add_emod q.num q.den
  rw [convergents, if_neg hden.ne']
  simp only [mul_zero, add_zero, mul_one, zero_add]
  rw [if_neg (by omega)]
  refine Convergents.Approach.stops ⟨?_, ?_, ?_, le_rfl, ?_, ?_, ?_, ?_⟩ hq
  · rw [hrest]
    dsimp only
    linear_combination -hdiv
  · simp
  · simp
  · dsimp only
    omega
  · dsimp only
    omega
  · dsimp only
    omega
  · rw [hrest]
    exact Int.emod_lt_of_pos _ (by omega)

theorem abs_sub_le_of_encloses {lower upper p r : Rat} (h : Encloses bound q lower upper)
    (hp : p.den ≤ bound) (hlo : |r - q| ≤ |lower - q|) (hhi : |r - q| ≤ |upper - q|) :
    |r - q| ≤ |p - q| := by
  have hlt := h.lower_lt
  have hlt' := h.lt_upper
  rcases h.empty p hp with hle | hle
  · refine hlo.trans ?_
    rw [abs_of_neg (by linarith), abs_of_neg (by linarith)]
    linarith
  · refine hhi.trans ?_
    rw [abs_of_pos (by linarith), abs_of_pos (by linarith)]
    linarith

theorem abs_limitDenominator_sub_le {bound : Nat} (hbound : 0 < bound) (q : Rat) {p : Rat}
    (hp : p.den ≤ bound) : |limitDenominator bound q - q| ≤ |p - q| := by
  rw [limitDenominator]
  split
  · rw [sub_self, abs_zero]
    exact abs_nonneg _
  · next hq =>
    obtain ⟨m, e, hstops⟩ := exists_stops hbound (not_le.1 hq)
    have hdistance (a : Rat) : (if a < q then q - a else a - q) = |a - q| := by
      split
      · next hlt => rw [abs_of_neg (by linarith), neg_sub]
      · next hlt => rw [abs_of_nonneg (by linarith)]
    dsimp only
    simp only [hdistance]
    split
    · next hle =>
      rcases hstops.encloses rfl with h | h
      · exact abs_sub_le_of_encloses h hp hle le_rfl
      · exact abs_sub_le_of_encloses h hp le_rfl hle
    · next hlt =>
      rcases hstops.encloses rfl with h | h
      · exact abs_sub_le_of_encloses h hp le_rfl (not_le.1 hlt).le
      · exact abs_sub_le_of_encloses h hp (not_le.1 hlt).le le_rfl

theorem den_div_le (p : Int) {r : Int} (hr : 0 < r) (hle : r ≤ bound) :
    ((p : Rat) / r).den ≤ bound := by
  have hdvd := Int.le_of_dvd hr (Rat.den_dvd p r)
  exact_mod_cast hdvd.trans hle

theorem den_limitDenominator_le (hbound : 0 < bound) (q : Rat) :
    (limitDenominator bound q).den ≤ bound := by
  rw [limitDenominator]
  split
  · assumption
  · next hq =>
    obtain ⟨m, e, hstops⟩ := exists_stops hbound (not_le.1 hq)
    obtain ⟨hpos, hle, -⟩ := hstops.last_bounds rfl
    exact iteInduction (motive := fun r : Rat => r.den ≤ bound)
      (fun _ => den_div_le _ hstops.q1_pos hstops.q1_le) fun _ => den_div_le _ hpos hle

/-! ### Written times -/

inductive Denotes : String → Rat → Prop
  | zero : Denotes "0s" 0
  | quotient (n d : Int) (hd : 0 < d) : Denotes (toString n ++ "/" ++ toString d ++ "s") (n / d)

theorem Denotes.unique {s : String} {v w : Rat} (hv : Denotes s v) (hw : Denotes s w) : v = w := by
  have hslash (n : Int) : '/' ∉ (toString n).toList := not_mem_toString (by decide) n
  have hlist (n d : Int) : (toString n ++ "/" ++ toString d ++ "s").toList =
      (toString n).toList ++ '/' :: ((toString d).toList ++ ['s']) := by simp
  have hzero (n d : Int) : toString n ++ "/" ++ toString d ++ "s" ≠ "0s" := by
    intro h
    have hmem : '/' ∈ "0s".toList := by
      rw [← h, hlist]
      simp
    revert hmem
    decide
  have hnumber {m n : Int} (h : (toString m).toList = (toString n).toList) : m = n :=
    Int.repr_inj.1 (String.toList_injective h)
  generalize hs : s = t at hw
  cases hv with
  | zero =>
    cases hw with
    | zero => rfl
    | quotient n d hd => exact absurd hs.symm (hzero n d)
  | quotient n d hd =>
    cases hw with
    | zero => exact absurd hs (hzero n d)
    | quotient m e he =>
      have htexts := congrArg String.toList hs
      rw [hlist, hlist] at htexts
      obtain ⟨hnum, hden⟩ := eq_of_append_separator (hslash n) (hslash m) htexts
      rw [hnumber hnum, hnumber (append_cancel_right hden)]

/-- A time whose denominator is small and no part of 3000 goes up to the next thirtieth. -/
def raised (q : Rat) : Rat :=
  if q.den < 3000 ∧ 3000 % q.den ≠ 0 then ((max 0 (q * 30).ceil : Int) : Rat) / 30 else q

def shown (q : Rat) : Rat := raised (limitDenominator 1000000 q)

theorem le_raised (q : Rat) : q ≤ raised q := by
  rw [raised]
  split
  · rw [le_div_iff₀ (by norm_num)]
    exact Rat.le_ceil.trans (by exact_mod_cast le_max_right 0 _)
  · exact le_rfl

theorem sub_le_shown (q : Rat) : q - 1 / 2000000 ≤ shown q := by
  have hden : ((Exact.round (q * 1000000) : Rat) / (1000000 : Int)).den ≤ 1000000 :=
    den_div_le _ (by norm_num) le_rfl
  have hnear := @abs_limitDenominator_sub_le 1000000 (by norm_num) q _ hden
  have hround : |(Exact.round (q * 1000000) : Rat) / (1000000 : Int) - q| ≤ 1 / 2000000 := by
    have heq : (Exact.round (q * 1000000) : Rat) / (1000000 : Int) - q =
        (Exact.round (q * 1000000) - q * 1000000) / 1000000 := by
      push_cast
      ring
    rw [heq, abs_div, abs_of_pos (show (0 : Rat) < 1000000 by norm_num), div_le_iff₀ (by norm_num)]
    have := abs_round_sub_le (q * 1000000)
    linarith
  have hlow := (abs_le.1 (hnear.trans hround)).1
  have hraised := le_raised (limitDenominator 1000000 q)
  rw [shown]
  linarith

theorem shown_zero : shown 0 = 0 := by decide +kernel

theorem nearest_share_iff {d : Nat} (hd : 0 < d) (hd' : d < 3000) {n : Int} :
    nearest (3000 / d) = n ↔ n * d = 3000 := by
  have hpos : (0 : Rat) < d := by exact_mod_cast hd
  have hlt : (d : Rat) < 3000 := by exact_mod_cast hd'
  constructor
  · intro hn
    have hone : (1 : Rat) ≤ 3000 / d := (one_le_div hpos).2 hlt.le
    have hnear := abs_nearest_sub_le (abs_of_pos (zero_lt_one.trans_le hone)).le
      (two_zpow_neg_le_one.trans hone)
    have hscaled : |((n * d - 3000 : Int) : Rat)| < 1 := by
      calc |((n * d - 3000 : Int) : Rat)| = |nearest (3000 / d) - 3000 / d| * d := by
            rw [hn, ← abs_of_pos hpos, ← abs_mul, abs_of_pos hpos, sub_mul,
              div_mul_cancel₀ _ hpos.ne']
            push_cast
            rfl
        _ ≤ 3000 / d / 2 ^ 53 * d := mul_le_mul_of_nonneg_right hnear hpos.le
        _ = 3000 / 2 ^ 53 := by field_simp
        _ < 1 := by norm_num
    have := Int.abs_lt_one_iff.1 (by exact_mod_cast hscaled : |n * d - 3000| < 1)
    omega
  · intro hn
    have hle := Int.natAbs_le_of_dvd_ne_zero (Dvd.intro _ hn) (by norm_num)
    have hn' : (n : Rat) * d = 3000 := by exact_mod_cast hn
    rw [← hn', mul_div_cancel_right₀ _ hpos.ne']
    exact nearest_eq_self (onGrid_intCast (by rw [Int.abs_eq_natAbs]; omega))

theorem share_ok {d : Nat} (hd : 0 < d) (hd' : d < 3000) :
    ∃ x factor, div 3000 (.int d) = .ok x ∧ x.trunc = .ok factor ∧
      (eqv (.int factor) x ↔ 3000 % d = 0) ∧ (3000 % d = 0 → factor * d = 3000) := by
  have hpos : (0 : Rat) < d := by exact_mod_cast hd
  have hle : |(3000 : Rat) / d| ≤ 2 ^ 53 := by
    rw [abs_of_pos (by positivity), div_le_iff₀ hpos]
    have : (1 : Rat) ≤ d := by exact_mod_cast hd
    linarith
  have hwhole (hpart : 3000 % d = 0) : trunc (nearest (3000 / d)) * d = 3000 := by
    have hfactor : ((3000 / d : Nat) : Int) * d = 3000 := by
      exact_mod_cast Nat.div_mul_cancel (Nat.dvd_of_mod_eq_zero hpart)
    rw [(nearest_share_iff hd hd').2 hfactor, trunc_intCast, hfactor]
  obtain ⟨x, hx, hvalue⟩ := nearestFloat_ok (le_largest hle)
  refine ⟨.float x, _, ?_, trunc_float.2 ⟨_, hvalue, rfl⟩, ?_, hwhole⟩
  · change div (.int 3000) _ = _
    rw [div, if_neg (by omega)]
    simp only [Int.cast_natCast, Int.cast_ofNat, hx, ok_bind]
    rfl
  · rw [eqv_iff_of_toRat? (y := .float x) rfl hvalue, eq_comm, nearest_share_iff hd hd']
    refine ⟨fun h => Nat.mod_eq_zero_of_dvd ?_, hwhole⟩
    exact_mod_cast Dvd.intro_left _ h

theorem lt_thirtieth_iff (q : Rat) (k : Nat) : (k : Rat) / 30 < q ↔ k < (q * 30).ceil.toNat := by
  rw [div_lt_iff₀ (by norm_num), Int.lt_toNat, Rat.lt_ceil_iff, Int.cast_natCast]

theorem thirtieth_of_le {q : Rat} {k : Nat} (hk : k ≤ (q * 30).ceil.toNat) :
    thirtieth q (k / 30) = ((q * 30).ceil.toNat : Rat) / 30 := by
  induction hk using Nat.decreasingInduction with
  | self => rw [thirtieth, if_neg (by simp [lt_thirtieth_iff])]
  | of_succ k hk ih =>
    rw [thirtieth, if_pos ((lt_thirtieth_iff q k).2 hk), ← ih, Nat.cast_succ, add_div]

theorem thirtieth_zero (q : Rat) : thirtieth q 0 = ((q * 30).ceil.toNat : Rat) / 30 := by
  simpa using @thirtieth_of_le q 0 (Nat.zero_le _)

def scale (q : Rat) : Nat := if q.den ∣ 3000 then 3000 else (raised q).den

theorem scale_le {q : Rat} (hq : q.den ≤ 1000000) : scale q ≤ 1000000 := by
  rw [scale, raised]
  split
  · norm_num
  · split
    · exact den_div_le _ (by norm_num : (0 : Int) < 30) (by norm_num)
    · exact hq

theorem scale_pos (q : Rat) : 0 < scale q := by
  rw [scale]
  split
  · norm_num
  · exact Rat.den_pos _

theorem seconds_eq {x : Number} {a tb q : Rat} (hx : x.toRat? = some a) (ha : a ≠ 0) (htb : tb ≠ 0)
    (hq : limitDenominator 1000000 (a / tb) = q) :
    ∃ n : Int, (n : Rat) / scale q = raised q ∧ seconds x tb = seconds.text n (scale q) := by
  have hzero : ¬ x.eqv 0 := by
    rw [eqv_iff_of_toRat? hx (toRat?_ofNat 0)]
    exact_mod_cast ha
  rw [seconds, if_neg hzero, exactSpeed_eq_ok.2 hx, ok_bind, if_neg htb]
  dsimp only
  rw [hq]
  by_cases hsmall : q.den < 3000
  · obtain ⟨share, factor, hdiv, htrunc, htest, hfactor⟩ := share_ok q.den_pos hsmall
    rw [if_pos hsmall, hdiv, ok_bind, htrunc, ok_bind]
    by_cases hpart : 3000 % q.den = 0
    · have hwhole : (q.den : Int) * factor = 3000 := by rw [mul_comm, hfactor hpart]
      have hfactor' : (q.den : Rat) * factor = 3000 := by exact_mod_cast hwhole
      rw [if_pos (htest.2 hpart), scale, if_pos (Nat.dvd_of_mod_eq_zero hpart), hwhole, raised,
        if_neg (by simp [hpart])]
      refine ⟨_, ?_, rfl⟩
      rw [Int.cast_mul, div_eq_iff (by norm_num), Nat.cast_ofNat, ← hfactor', ← mul_assoc,
        Rat.mul_den_eq_num]
    · rw [if_neg (mt htest.1 hpart), scale, if_neg (mt Nat.mod_eq_zero_of_dvd hpart)]
      have hup : thirtieth q 0 = raised q := by
        rw [raised, if_pos ⟨hsmall, hpart⟩, thirtieth_zero, max_comm, ← Int.toNat_eq_max,
          Int.cast_natCast]
      rw [hup]
      exact ⟨_, Rat.num_div_den _, rfl⟩
  · have hraised : raised q = q := if_neg fun h => hsmall h.1
    have hscale : scale q = q.den := by
      rw [scale, hraised]
      split
      · next hdvd => exact le_antisymm (not_lt.1 hsmall) (Nat.le_of_dvd (by norm_num) hdvd)
      · rfl
    rw [if_neg hsmall, hscale, hraised]
    exact ⟨_, Rat.num_div_den _, rfl⟩

theorem raised_lt {q : Rat} (hq : 0 ≤ q) : raised q < q + 1 / 30 := by
  rw [raised]
  split
  · have hceil : (0 : Rat) ≤ (q * 30).ceil := le_trans (by positivity) Rat.le_ceil
    rw [max_eq_right (by exact_mod_cast hceil), div_lt_iff₀ (by norm_num)]
    have := @Rat.ceil_lt (q * 30)
    linarith
  · linarith

theorem limitDenominator_bounds {q : Rat} (hq : 0 ≤ q) :
    0 ≤ limitDenominator 1000000 q ∧ limitDenominator 1000000 q ≤ 2 * q := by
  have hnear := @abs_limitDenominator_sub_le 1000000 (by norm_num) q 0 (by decide)
  rw [zero_sub, abs_neg, abs_of_nonneg hq] at hnear
  have := abs_le.1 hnear
  exact ⟨by linarith, by linarith⟩

theorem seconds_writes {x : Number} {a tb q : Rat} (hx : x.toRat? = some a) (ha : 0 < a)
    (htb : 0 < tb) (hq : limitDenominator 1000000 (a / tb) = q) :
    ∃ n : Nat, (n : Rat) / scale q = raised q ∧
      (10 ^ Decimal.digitLimit ≤ n → seconds x tb = .error .badValue) ∧
      (n < 10 ^ Decimal.digitLimit → ∃ text, seconds x tb = .ok text ∧ Denotes text (raised q)) := by
  obtain ⟨n, hn, htext⟩ := seconds_eq hx ha.ne' htb.ne' hq
  have hpos : (0 : Rat) < scale q := by exact_mod_cast scale_pos q
  obtain ⟨n, rfl⟩ : ∃ m : Nat, n = m := by
    have hnonneg := hq ▸ (limitDenominator_bounds (div_pos ha htb).le).1.trans (le_raised _)
    rw [← hn, le_div_iff₀ hpos, zero_mul] at hnonneg
    exact Int.eq_ofNat_of_zero_le (by exact_mod_cast hnonneg)
  have hscale : isWritable (scale q) := by
    have hle : scale q ≤ 1000000 := scale_le (hq ▸ den_limitDenominator_le (by norm_num) _)
    exact isWritable_natCast.2 (lt_of_lt_of_le (by omega) (Nat.pow_le_pow_right (by norm_num)
      (show 7 ≤ Decimal.digitLimit by decide)))
  rw [Int.cast_natCast] at hn
  refine ⟨n, hn, fun hlong => ?_, fun hshort => ?_⟩
  · rw [htext, seconds.text, intText, if_neg (by rwa [isWritable_natCast, not_lt])]
    rfl
  · rw [htext, seconds.text, intText_ok (isWritable_natCast.2 hshort), intText_ok hscale, ← hn]
    exact ⟨_, rfl, .quotient n (scale q) (by exact_mod_cast scale_pos q)⟩

theorem seconds_ok {x : Number} {m : Int} {tb : Rat} (hx : x.toRat? = some (m : Rat)) (hm : 0 ≤ m)
    (hm' : m < 2 ^ 53) (htb : 0 < tb) (htb' : 1 / tb ≤ 2 ^ 53) :
    ∃ text, seconds x tb = .ok text ∧ Denotes text (shown (m / tb)) := by
  obtain rfl | hpos := hm.eq_or_lt
  · rw [seconds, if_pos ((eqv_iff_of_toRat? hx (toRat?_ofNat 0)).2 (by simp)), Int.cast_zero,
      zero_div, shown_zero]
    exact ⟨_, rfl, .zero⟩
  · have hpos' : (0 : Rat) < m := by exact_mod_cast hpos
    obtain ⟨n, hn, -, hshort⟩ := seconds_writes hx hpos' htb rfl
    refine hshort (lt_of_lt_of_le ?_ (Nat.pow_le_pow_right (by norm_num)
      (show 40 ≤ Decimal.digitLimit by decide)))
    have hle : (m : Rat) / tb ≤ 2 ^ 53 * 2 ^ 53 := by
      rw [div_eq_mul_one_div]
      exact mul_le_mul (by exact_mod_cast hm'.le) htb' (by positivity) (by positivity)
    obtain ⟨hlo, hhi⟩ := limitDenominator_bounds (div_pos hpos' htb).le
    have hraised := raised_lt hlo
    have hscale : (scale (limitDenominator 1000000 (m / tb)) : Rat) ≤ 1000000 := by
      exact_mod_cast scale_le (den_limitDenominator_le (by norm_num) _)
    have hscale' : (0 : Rat) < scale (limitDenominator 1000000 (m / tb)) := by
      exact_mod_cast scale_pos _
    have hbound : (n : Rat) < 10 ^ 40 := by
      calc (n : Rat) = raised _ * scale _ := (div_eq_iff hscale'.ne').1 hn
        _ ≤ (2 * (2 ^ 53 * 2 ^ 53) + 1 / 30) * 1000000 :=
          mul_le_mul (by linarith) hscale hscale'.le (by positivity)
        _ < 10 ^ 40 := by norm_num
    exact_mod_cast hbound

/-- A written time is not before the fraction that it stands for, and less than a thirtieth behind
it; it is that fraction unless its denominator is small and no part of 3000. It is written unless
its numerator has too many digits. -/
theorem seconds_within_thirtieth {x : Number} {a tb q : Rat} (hx : x.toRat? = some a) (ha : 0 < a)
    (htb : 0 < tb) (hq : limitDenominator 1000000 (a / tb) = q) :
    ∃ (v : Rat) (n d : Nat), q ≤ v ∧ v < q + 1 / 30 ∧ (q.den ∣ 3000 ∨ 3000 ≤ q.den → v = q) ∧
      v = n / d ∧ d = (if q.den ∣ 3000 then 3000 else v.den) ∧
      (10 ^ Decimal.digitLimit ≤ n → seconds x tb = .error .badValue) ∧
      (n < 10 ^ Decimal.digitLimit →
        ∃ text, seconds x tb = .ok text ∧ ∀ w, Denotes text w ↔ w = v) ∧
      ∃ k : Nat, thirtieth q 0 = k / 30 ∧ ∀ i : Nat, (i : Rat) / 30 < q ↔ i < k := by
  obtain ⟨n, hn, hlong, hshort⟩ := seconds_writes hx ha htb hq
  have hnonneg := hq ▸ (limitDenominator_bounds (div_pos ha htb).le).1
  refine ⟨raised q, n, scale q, le_raised q, raised_lt hnonneg, fun hden => if_neg ?_, hn.symm, rfl,
    hlong, fun h => ?_, _, thirtieth_zero q, lt_thirtieth_iff q⟩
  · rintro ⟨hsmall, hpart⟩
    exact hden.elim (fun hdvd => hpart (Nat.mod_eq_zero_of_dvd hdvd)) (not_le.2 hsmall)
  · obtain ⟨text, htext, hdenotes⟩ := hshort h
    exact ⟨text, htext, fun w => ⟨fun hw => hw.unique hdenotes, fun hw => hw ▸ hdenotes⟩⟩

theorem seconds_within_thirtieth_seventh : ∃ v, seconds (.frac (1 / 7)) 1 = .ok "1/6s" ∧
    Denotes "1/6s" v ∧ 1 / 7 ≤ v ∧ v < 1 / 7 + 1 / 30 := by
  have htext : seconds (.frac (1 / 7)) 1 = .ok "1/6s" := by decide +kernel
  obtain ⟨v, n, d, hlo, hhi, -, -, -, hlong, hshort, -⟩ :=
    @seconds_within_thirtieth (.frac (1 / 7)) _ 1 (1 / 7) rfl (by norm_num) (by norm_num)
      (by decide +kernel)
  have hn : n < 10 ^ Decimal.digitLimit := by
    by_contra h
    cases htext.symm.trans (hlong (not_lt.1 h))
  obtain ⟨text, hok, hdenotes⟩ := hshort hn
  cases htext.symm.trans hok
  exact ⟨v, htext, (hdenotes v).2 rfl, hlo, hhi⟩

/-! ### Clips -/

def spine (name : String) (assets : List AssetClip) : String :=
  String.join (assets.map fun a => indent 6 [a.tag name "/"])

/-- A clip of a tick more than the chunk; the first one begins its source. -/
structure AssetClip.Overruns (tb : Rat) (done : Int) (c : Chunk) (a : AssetClip) : Prop where
  offset : Denotes a.offset (shown (done / tb))
  start : Denotes (a.start.getD "0s") (shown ((if done = 0 then 0 else c.start : Int) / tb))
  duration : Denotes a.duration (shown ((c.length + 1 : Int) / tb))

structure AssetClip.Shows (tb : Rat) (before : Int) (c : Chunk) (a : AssetClip) : Prop where
  offset : Denotes a.offset (before / tb)
  start : Denotes (a.start.getD "0s") (c.start / tb)
  duration : Denotes a.duration (c.length / tb)

theorem AssetClip.Overruns.duration_ne {tb : Rat} {done : Int} {c : Chunk} {a : AssetClip}
    (h : a.Overruns tb done c) (htb : 0 < tb) (htb' : tb < 2000000) :
    ¬ Denotes a.duration (c.length / tb) := by
  intro hdenotes
  have hsame := h.duration.unique hdenotes
  have hlow := sub_le_shown ((c.length + 1 : Int) / tb)
  have htick : 1 / 2000000 < 1 / tb := one_div_lt_one_div_of_lt htb htb'
  rw [hsame, Int.cast_add, Int.cast_one, add_div] at hlow
  linarith

end FinalCut

namespace Number

theorem div_one_ok {s : Number} (hs : s.toRat? = some 1) {n : Int} (hn : 0 ≤ n ∧ n < 2 ^ 53) :
    ∃ x, div (.int n) s = .ok x ∧ x.toRat? = some (n : Rat) := by
  replace hn : |n| < 2 ^ 53 := abs_lt.2 (by omega)
  have hself := nearest_eq_self (onGrid_intCast hn)
  have hsome : (toFloat? n).isSome := by
    rw [isSome_toFloat?_iff, hself]
    exact (le_largest (by exact_mod_cast hn.le)).trans_lt largest_lt_limit
  by_cases hw : s.Writable
  · obtain ⟨x, hx, hvalue⟩ := div_speed_one_ok hw hs hsome
    exact ⟨_, hx, by rw [toRat?, hvalue, hself]⟩
  · cases s with
    | frac q =>
      cases hs
      exact ⟨.frac (n / 1), by rw [div, if_neg one_ne_zero], by rw [toRat?, div_one]⟩
    | int m => exact absurd (writable_iff.2 (.inl ⟨m, rfl⟩)) hw
    | float y => exact absurd (writable_iff.2 (.inr ⟨y, rfl⟩)) hw
    | complex re im => cases hs

theorem add_float_ok {y : Float} {x : Number} {m n : Int} (hy : ofFloat? y = some (m : Rat))
    (hx : x.toRat? = some (n : Rat)) (hn : |n| < 2 ^ 53) (hsum : |m + n| < 2 ^ 53) :
    ∃ z, add (.float y) x = .ok (.float z) ∧ ofFloat? z = some ((m + n : Int) : Rat) := by
  have hle {k : Int} (hk : |k| < 2 ^ 53) : |(k : Rat)| ≤ largest :=
    le_largest (by exact_mod_cast hk.le)
  obtain ⟨u, hu, hvalue⟩ := toFloat_ok hx (hle hn)
  rw [nearest_eq_self (onGrid_intCast hn)] at hvalue
  have hself : toFloat (.float y) = .ok y := rfl
  refine ⟨y + u, ?_, ?_⟩
  · cases x with
    | complex re im => cases hx
    | int k => simp only [add, lift, hself, hu, ok_bind, pure, Except.pure]
    | frac q => simp only [add, lift, hself, hu, ok_bind, pure, Except.pure]
    | float w => simp only [add, lift, hself, hu, ok_bind, pure, Except.pure]
  · rw [ofFloat?_add hy hvalue, ← Int.cast_add, nearest_eq_self (onGrid_intCast hsum),
      inRange?_of_le (hle hsum)]

end Number

theorem Chunk.map_snd_laid (n : Int) (cs : List Chunk) : (laid n cs).map Prod.snd = kept cs := by
  induction cs generalizing n with
  | nil => rfl
  | cons c cs ih => cases hc : c.isCut <;> simp [laid, kept, hc, ih]

namespace FinalCut

theorem place_ok {tb : Rat} (htb : 0 < tb) (htb' : 1 / tb ≤ 2 ^ 53) {c : Chunk}
    (hspeed : c.speed.toRat? = some 1) (hstart : 0 ≤ c.start ∧ c.start < 2 ^ 53)
    (hlength : 0 ≤ c.length + 1 ∧ c.length + 1 < 2 ^ 53) {x : Float} {done : Int}
    (hx : ofFloat? x = some (done : Rat)) (hdone : 0 ≤ done ∧ done < 2 ^ 53) :
    ∃ a length, place tb (.float x) c = .ok (a, length) ∧ a.Overruns tb done c ∧
      length.toRat? = some ((c.length + 1 : Int) : Rat) := by
  obtain ⟨length, hdiv, hvalue⟩ := div_one_ok hspeed hlength
  obtain ⟨duration, hdur, hdenotes⟩ := seconds_ok hvalue hlength.1 hlength.2 htb htb'
  rw [place, hdiv, ok_bind, hdur, ok_bind]
  have hzero : eqv (.float x) 0 ↔ done = 0 := by
    rw [eqv_iff_of_toRat? (x := .float x) hx (toRat?_ofNat 0)]
    exact_mod_cast Iff.rfl
  by_cases hfirst : done = 0
  · rw [if_pos (hzero.2 hfirst)]
    refine ⟨_, _, rfl, ⟨?_, ?_, hdenotes⟩, hvalue⟩
    · rw [hfirst, Int.cast_zero, zero_div, shown_zero]
      exact .zero
    · rw [if_pos hfirst, Int.cast_zero, zero_div, shown_zero]
      exact .zero
  · obtain ⟨s, hs, hsvalue⟩ := div_one_ok hspeed hstart
    obtain ⟨start, hstart, hbegin⟩ := seconds_ok hsvalue hstart.1 hstart.2 htb htb'
    obtain ⟨offset, hoffset, hplace⟩ := seconds_ok (x := .float x) hx hdone.1 hdone.2 htb htb'
    rw [if_neg (fun h => hfirst (hzero.1 h)), hs, ok_bind, hstart, ok_bind, hoffset, ok_bind]
    refine ⟨_, _, rfl, ⟨hplace, ?_, hdenotes⟩, hvalue⟩
    rw [if_neg hfirst]
    exact hbegin

theorem clips_ok {name : String} {tb : Rat} (htb : 0 < tb) (htb' : 1 / tb ≤ 2 ^ 53)
    {total lo hi : Int} {cs : List Chunk} (htiles : Tiles lo hi cs) (hplain : ∀ c ∈ cs, c.Plain) (hhi : hi < 2 ^ 52) {n : Int}
    {k : Nat} (hn : 0 ≤ n) (hlo : n ≤ lo) (hk : k ≤ lo) {x : Float}
    (hx : ofFloat? x = some ((n + k : Int) : Rat)) :
    ∃ assets, clips name tb total (.float x) (cs.filter (!·.isCut)) = .ok (spine name assets) ∧
      Forall₂ (fun p a => a.Overruns tb (p.1.1 + p.2) p.1.2) ((laid n cs).zipIdx k)
        assets := by
  induction cs generalizing lo n k x with
  | nil => exact ⟨[], rfl, .nil⟩
  | cons c cs ih =>
    obtain ⟨rfl, hlt, hcs⟩ := htiles
    obtain ⟨hc, hplain⟩ := forall_mem_cons.1 hplain
    have hle := hcs.le
    have hlen : c.length = c.stop - c.start := rfl
    rw [laid]
    by_cases hcut : c.isCut
    · rw [filter_cons_of_neg (by simp [hcut]), if_pos hcut]
      exact ih hcs hplain hn (by omega) (by omega) hx
    · rw [filter_cons_of_pos (by simp [hcut]), if_neg hcut, zipIdx_cons]
      have hspeed : c.speed.toRat? = some 1 :=
        hc.resolve_right fun hvalue => hcut ((isCut_iff hvalue).2 rfl)
      obtain ⟨a, length, hplace, hover, hlength⟩ := place_ok htb htb' hspeed
        (by omega) (by omega) hx (by omega)
      obtain ⟨y, hadd, hy⟩ := add_float_ok hx hlength (abs_lt.2 (by omega)) (abs_lt.2 (by omega))
      obtain ⟨assets, hclips, hall⟩ := @ih c.stop hcs hplain (n + c.length) (k + 1) (by omega)
        (by omega) (by omega) y (by rw [hy]; push_cast; ring_nf)
      refine ⟨a :: assets, ?_, .cons hover hall⟩
      have hnormal : c.speed.eqv 1 = true :=
        (eqv_iff_of_toRat? hspeed (toRat?_ofNat 1)).2 Nat.cast_one.symm
      have hclip : clip name tb total (.float x) c = .ok (indent 6 [a.tag name "/"], .float y) := by
        rw [clip, hplace, ok_bind]
        dsimp only
        rw [if_pos hnormal, pure_bind, hadd]
        rfl
      rw [clips, hclip, ok_bind]
      dsimp only
      rw [hclips, ok_bind, spine, spine, map_cons, String.join_cons]
      rfl

end FinalCut

open FinalCut

theorem FinalCut.opening_ok {t : Timeline} (htb : 0 < t.tb) (htb' : 1 / t.tb ≤ 2 ^ 53)
    (hrate : t.tb ≤ largest) (src : Source) {total : Int} (htotal : 0 ≤ total)
    (htotal' : total < 2 ^ 53) (url : String) : ∃ top, opening t src total url = .ok top := by
  obtain ⟨frame, hframe, -⟩ := seconds_ok (x := .int 1) rfl (by norm_num) (by norm_num) htb htb'
  obtain ⟨whole, hwhole, -⟩ := seconds_ok (x := .int total) rfl htotal htotal' htb htb'
  obtain ⟨y, hy, -⟩ := nearestFloat_ok (q := t.tb) ((abs_of_pos htb).le.trans hrate)
  rw [opening, hframe, ok_bind, hy, ok_bind]
  dsimp only
  rw [hwhole, ok_bind]
  exact ⟨_, rfl⟩

theorem Timeline.writeFinalCut_ok {t : Timeline} {src : Source} {cs : List Chunk} {n : Int}
    {path text : String} {w : Workspace} (hchunks : t.chunks = some cs)
    (hsrc : t.source "0" = .ok src) (htiles : Tiles 0 n cs) (hne : cs ≠ [])
    (hdoc : document t src cs n (url w.platform src.fullPath) = .ok text)
    (hdir : w.tree.isDir (Path.dir (absolutePath path)))
    (hnew : ¬ w.tree.isDir (absolutePath path)) :
    t.writeFinalCut path w =
      .ok () { w with tree := w.tree.put (absolutePath path) text.toUTF8 } := by
  have hlast := getLast?_eq_some_getLast hne
  have hwritten := Session.writeText_ok text hdir hnew
  rw [writeFinalCut, hsrc, Session.ofExcept_ok, pure_bind, hchunks]
  simp only [hlast, htiles.stop_getLast hlast, run_bind_eq_ok]
  exact ⟨w, w, rfl, text, w, by rw [hdoc]; rfl, hwritten⟩

/-- The clips follow the kept chunks of a source that is shown at its own speed, one by one. Each is
written a tick longer than its chunk, so that a clip begins a tick later for every clip before it,
and the first one begins its source wherever its chunk does. Unless ticks are too short to be told
apart, no clip has the length of its chunk, so clips show their chunks only if nothing is kept. -/
theorem Timeline.writeFinalCut_shows_iff {t : Timeline} {src : Source} {cs : List Chunk} {n : Int}
    {path : String} {w : Workspace} (hchunks : t.chunks = some cs) (hsrc : t.source "0" = .ok src)
    (htiles : Tiles 0 n cs) (hne : cs ≠ []) (hplain : ∀ c ∈ cs, c.Plain) (hn : n < 2 ^ 52)
    (htb : 0 < t.tb) (htb' : 1 / t.tb ≤ 2 ^ 53) (hrate : t.tb ≤ largest)
    (hdir : w.tree.isDir (Path.dir (absolutePath path)))
    (hnew : ¬ w.tree.isDir (absolutePath path)) :
    ∃ w' top assets, t.writeFinalCut path w = .ok () w' ∧
      opening t src n (url w.platform src.fullPath) = .ok top ∧
      w'.tree.read? (absolutePath path) =
        some (top ++ spine src.fileName assets ++ closing).toUTF8 ∧
      Forall₂ (fun p a => a.Overruns t.tb (p.1.1 + p.2) p.1.2) (laid 0 cs).zipIdx
        assets ∧
      (t.tb < 2000000 →
        Forall₂ (fun p a => ¬ Denotes a.duration (p.2.length / t.tb)) (laid 0 cs)
          assets ∧
        (Forall₂ (fun p a => a.Shows t.tb p.1 p.2) (laid 0 cs) assets ↔
          kept cs = [])) := by
  obtain ⟨top, htop⟩ := opening_ok htb htb' hrate src htiles.le (by omega)
    (url w.platform src.fullPath)
  have hzero : ofFloat? 0.0 = some ((0 + (0 : Nat) : Int) : Rat) := toRat?_zero
  obtain ⟨assets, hassets, hall⟩ := @clips_ok src.fileName t.tb htb htb' n 0 n cs htiles hplain hn
    0 0 le_rfl le_rfl le_rfl 0.0 hzero
  have hdoc : document t src cs n (url w.platform src.fullPath) =
      .ok (top ++ spine src.fileName assets ++ closing) := by
    rw [document, htop, ok_bind, hassets]
    rfl
  have hwrite := writeFinalCut_ok hchunks hsrc htiles hne hdoc hdir hnew
  refine ⟨_, top, assets, hwrite, htop, by rw [Tree.read?_put, if_pos rfl], hall, fun htb' => ?_⟩
  have hlong : Forall₂ (fun p a => ¬ Denotes a.duration (p.2.length / t.tb)) (laid 0 cs)
      assets := by
    rw [← zipIdx_map_fst 0 (laid 0 cs), forall₂_map_left_iff]
    exact hall.imp fun p a h => h.duration_ne htb htb'
  refine ⟨hlong, ?_⟩
  rw [← map_snd_laid 0 cs, map_eq_nil_iff]
  generalize laid 0 cs = ps at hlong
  constructor
  · intro hshows
    cases hshows with
    | nil => rfl
    | cons hshow _ =>
      cases hlong with
      | cons hnot _ => exact absurd hshow.duration hnot
  · rintro rfl
    cases hlong
    exact .nil

def talk : Timeline :=
  { song with chunks := some [⟨0, 5, 99999⟩, ⟨5, 15, 1⟩, ⟨15, 20, .frac 99999⟩, ⟨20, 30, .frac 1⟩] }

theorem Timeline.writeFinalCut_shows_iff_talk :
    ∃ w' assets, talk.writeFinalCut "o" emptyFolder = .ok () w' ∧
      Forall₂ (fun (p : (Int × Chunk) × Nat) a => AssetClip.Overruns 30 (p.1.1 + p.2) p.1.2 a)
        [((0, ⟨5, 15, 1⟩), 0), ((10, ⟨20, 30, .frac 1⟩), 1)] assets ∧
      ¬ Forall₂ (fun (p : Int × Chunk) a => AssetClip.Shows 30 p.1 p.2 a)
        [(0, ⟨5, 15, 1⟩), (10, ⟨20, 30, .frac 1⟩)] assets := by
  have hlaid : laid 0 [⟨0, 5, 99999⟩, ⟨5, 15, 1⟩, ⟨15, 20, .frac 99999⟩, ⟨20, 30, .frac 1⟩] =
      [(0, ⟨5, 15, 1⟩), (10, ⟨20, 30, .frac 1⟩)] := by rfl
  have htiles : Tiles 0 30
      [⟨0, 5, 99999⟩, ⟨5, 15, 1⟩, ⟨15, 20, .frac 99999⟩, ⟨20, 30, .frac 1⟩] := by
    simp [Tiles]
  have hrate : (30 : Rat) ≤ largest :=
    (le_abs_self _).trans (le_largest (by norm_num))
  obtain ⟨w', top, assets, hwrite, -, -, hall, hiff⟩ :=
    @writeFinalCut_shows_iff talk _ _ 30 "o" emptyFolder rfl rfl htiles (by simp)
      (by simp [Plain, toRat?]) (by norm_num) (by decide) (by decide +kernel) hrate
      (by decide +kernel) (by decide +kernel)
  rw [hlaid] at hall hiff
  obtain ⟨hlong, -⟩ := hiff (by decide +kernel)
  refine ⟨w', assets, hwrite, hall, fun h => ?_⟩
  cases h with
  | cons hshow _ =>
    cases hlong with
    | cons hnot _ => exact hnot hshow.duration

theorem FinalCut.place_first :
    (place 30 (.float 0.0) ⟨5, 15, 1⟩).map (fun p => (p.1.offset, p.1.start, p.1.duration)) =
      .ok ("0s", none, "1100/3000s") ∧
    Denotes "1100/3000s" (11 / 30) ∧ ¬ Denotes "1100/3000s" (10 / 30) := by
  have hdenotes : Denotes "1100/3000s" (11 / 30) := by
    have := Denotes.quotient 1100 3000 (by decide)
    norm_num at this
    exact this
  refine ⟨by decide +kernel, hdenotes, fun h => ?_⟩
  have := hdenotes.unique h
  norm_num at this

end Jumpcut
