import Jumpcut.Proofs.NumberLaws
import Mathlib.Data.Int.Log
import Mathlib.Data.Rat.Floor
import Mathlib.Tactic.LinearCombination

namespace Jumpcut.Exact

variable {den : Nat} {q p b : Rat} {n : Int}

theorem roundDiv_tie {num : Int} (hd : 0 < den)
    (h : |(roundDiv num den : Rat) - num / den| = 1 / 2) : roundDiv num den % 2 = 0 := by
  have hd' : (den : Rat) ≠ 0 := by exact_mod_cast hd.ne'
  have hnum : (num : Rat) = num / den * den := (div_mul_cancel₀ _ hd').symm
  apply (roundDiv_spec num hd).2.2
  rcases eq_or_eq_neg_of_abs_eq h with h | h
  · right
    have hright : 2 * ((roundDiv num den : Rat) * den) = 2 * num + den := by
      rw [hnum]
      linear_combination 2 * (den : Rat) * h
    exact_mod_cast hright
  · left
    have hleft : 2 * ((roundDiv num den : Rat) * den) = 2 * num - den := by
      rw [hnum]
      linear_combination 2 * (den : Rat) * h
    exact_mod_cast hleft

theorem round_even (h : |(round q : Rat) - q| = 1 / 2) : round q % 2 = 0 := by
  apply roundDiv_tie q.den_pos
  rw [Rat.num_div_den]
  exact h

theorem round_eq_of (hle : |(n : Rat) - q| ≤ 1 / 2) (heven : |(n : Rat) - q| = 1 / 2 → n % 2 = 0) :
    round q = n := by
  have hround := abs_round_sub_le q
  by_contra hne
  have hone : (1 : Rat) ≤ |(round q : Rat) - n| := by
    exact_mod_cast Int.one_le_abs (sub_ne_zero.2 hne)
  have htri : |(round q : Rat) - n| ≤ |(round q : Rat) - q| + |(n : Rat) - q| := by
    rw [abs_sub_comm (n : Rat) q]
    exact abs_sub_le _ _ _
  have hmine : |(n : Rat) - q| = 1 / 2 := by linarith
  have hother : |(round q : Rat) - q| = 1 / 2 := by linarith
  have hdist : |(round q : Rat) - n| = 1 := by linarith
  have hdist' : |round q - n| = 1 := by exact_mod_cast hdist
  have h₁ := heven hmine
  have h₂ := round_even hother
  rcases eq_or_eq_neg_of_abs_eq hdist' with h | h <;> omega

theorem roundDiv_eq_round (num : Int) (hd : 0 < den) : roundDiv num den = round (num / den) := by
  have hd' : (0 : Rat) < den := by exact_mod_cast hd
  obtain ⟨hlo, hhi, -⟩ := roundDiv_spec num hd
  have hlo' : 2 * (num : Rat) - den ≤ 2 * (roundDiv num den * den) := by exact_mod_cast hlo
  have hhi' : 2 * ((roundDiv num den : Rat) * den) ≤ 2 * num + den := by exact_mod_cast hhi
  have hdiff : (roundDiv num den : Rat) - num / den = (roundDiv num den * den - num) / den := by
    field_simp
  refine (round_eq_of ?_ fun h => roundDiv_tie hd h).symm
  rw [hdiff, abs_le, le_div_iff₀ hd', div_le_iff₀ hd']
  constructor <;> linarith

@[simp] theorem round_neg (q : Rat) : round (-q) = -round q := by
  have habs : |((-round q : Int) : Rat) - -q| = |(round q : Rat) - q| := by
    rw [← abs_neg]
    congr 1
    push_cast
    ring
  apply round_eq_of
  · rw [habs]
    exact abs_round_sub_le q
  · intro h
    rw [habs] at h
    have := round_even h
    omega

theorem round_le_of_le {q : Rat} {n : Int} (h : q ≤ n) : round q ≤ n := by
  have hround := abs_le.1 (abs_round_sub_le q)
  by_contra hlt
  have hstep : (n : Rat) + 1 ≤ round q := by exact_mod_cast not_le.1 hlt
  linarith

theorem le_round_of_le (h : n ≤ q) : n ≤ round q := by
  have := @round_le_of_le (-q) (-n) (by push_cast; linarith)
  rw [round_neg] at this
  omega

theorem round_mono (h : p ≤ q) : round p ≤ round q := by
  have hp := abs_le.1 (abs_round_sub_le p)
  have hq := abs_le.1 (abs_round_sub_le q)
  by_contra hlt
  have hstep : (round q : Rat) + 1 ≤ round p := by exact_mod_cast not_le.1 hlt
  have heq : p = q := by linarith
  exact hlt (by rw [heq])

/-- The place of the last digit of the binary64 numbers around a rational. -/
def gridExp (q : Rat) : Int := max (Int.log 2 |q| - 52) (-1074)

def nearest (q : Rat) : Rat := round (q / 2 ^ gridExp q) * 2 ^ gridExp q

/-- The number has at most 53 binary places, the last one not too small. -/
def OnGrid (q : Rat) : Prop := ∃ m e : Int, |m| < 2 ^ 53 ∧ -1074 ≤ e ∧ q = m * 2 ^ e

def limit : Rat := 2 ^ 53 * 2 ^ (971 : Int)

def inRange? (q : Rat) : Option Rat := if |q| < limit then some q else none

theorem two_zpow_pos (e : Int) : (0 : Rat) < 2 ^ e := zpow_pos (by norm_num) e

theorem two_pow_mul_zpow (n : Nat) (e : Int) : (2 : Rat) ^ n * 2 ^ e = 2 ^ (n + e) := by
  rw [zpow_add₀ (by norm_num), zpow_natCast]

theorem limit_eq : limit = 2 ^ 52 * 2 ^ (972 : Int) := by
  rw [limit, two_pow_mul_zpow, two_pow_mul_zpow]
  norm_num

theorem lt_limit {m : Rat} {e : Int} (hm : m < 2 ^ 53) (he : e ≤ 971) : m * 2 ^ e < limit := by
  calc m * 2 ^ e < 2 ^ 53 * 2 ^ e := mul_lt_mul_of_pos_right hm (two_zpow_pos e)
    _ ≤ limit := by
      rw [limit]
      gcongr
      norm_num

theorem limit_le {m : Rat} {e : Int} (hm : 2 ^ 52 ≤ m) (he : 972 ≤ e) : limit ≤ m * 2 ^ e := by
  calc limit = 2 ^ 52 * 2 ^ (972 : Int) := limit_eq
    _ ≤ 2 ^ 52 * 2 ^ e := by gcongr; norm_num
    _ ≤ m * 2 ^ e := mul_le_mul_of_nonneg_right hm (two_zpow_pos e).le

theorem log_eq_of_bounds {v : Rat} {k : Int} (hlo : 2 ^ k ≤ v) (hhi : v < 2 ^ (k + 1)) :
    Int.log 2 |v| = k := by
  have hpos : 0 < v := (two_zpow_pos k).trans_le hlo
  rw [abs_of_pos hpos]
  apply le_antisymm
  · have hlt : Int.log 2 v < k + 1 :=
      (Int.lt_zpow_iff_log_lt (b := 2) (by norm_num) hpos).1 (by exact_mod_cast hhi)
    omega
  · exact (Int.zpow_le_iff_le_log (b := 2) (by norm_num) hpos).1 (by exact_mod_cast hlo)

theorem le_gridExp (q : Rat) : -1074 ≤ gridExp q := le_max_right _ _

theorem gridExp_neg (q : Rat) : gridExp (-q) = gridExp q := by rw [gridExp, gridExp, abs_neg]

theorem nearest_neg (q : Rat) : nearest (-q) = -nearest q := by
  rw [nearest, nearest, gridExp_neg, neg_div, round_neg]
  push_cast
  ring

theorem le_abs_of_gridExp (hq : q ≠ 0) (h : -1074 < gridExp q) : 2 ^ 52 * 2 ^ gridExp q ≤ |q| := by
  have hexp : gridExp q = Int.log 2 |q| - 52 := by
    rw [gridExp] at h ⊢
    omega
  have hlog : (2 : Rat) ^ Int.log 2 |q| ≤ |q| := by
    exact_mod_cast Int.zpow_log_le_self (b := 2) (by norm_num) (abs_pos.2 hq)
  refine le_of_eq_of_le ?_ hlog
  rw [hexp, ← zpow_natCast, ← zpow_add₀ (by norm_num)]
  congr 1
  push_cast
  ring

theorem abs_lt_of_gridExp (q : Rat) : |q| < 2 ^ 53 * 2 ^ gridExp q := by
  have hlog : |q| < (2 : Rat) ^ (Int.log 2 |q| + 1) := by
    exact_mod_cast Int.lt_zpow_succ_log_self (b := 2) (by norm_num) |q|
  refine hlog.trans_le ?_
  rw [← zpow_natCast, ← zpow_add₀ (by norm_num)]
  refine zpow_le_zpow_right₀ (by norm_num) ?_
  rw [gridExp]
  omega

theorem nearest_le_of_mul_le (h : q ≤ n * 2 ^ gridExp q) : nearest q ≤ n * 2 ^ gridExp q := by
  have hpos := two_zpow_pos (gridExp q)
  have hround : round (q / 2 ^ gridExp q) ≤ n := round_le_of_le ((div_le_iff₀ hpos).2 h)
  exact mul_le_mul_of_nonneg_right (by exact_mod_cast hround) hpos.le

@[simp] theorem nearest_zero : nearest 0 = 0 := by
  have : round 0 = 0 := round_intCast 0
  simp [nearest, this]

theorem nearest_le_of_le (hb : OnGrid b) (h : q ≤ b) : nearest q ≤ b := by
  obtain ⟨m, e, hm, he, rfl⟩ := hb
  rcases le_or_gt (gridExp q) e with hfine | hcoarse
  · have heq : (m : Rat) * 2 ^ e = (m * 2 ^ (e - gridExp q).toNat : Int) * 2 ^ gridExp q := by
      push_cast
      rw [mul_assoc, ← zpow_natCast, ← zpow_add₀ (by norm_num)]
      congr 2
      omega
    rw [heq] at h ⊢
    exact nearest_le_of_mul_le h
  · rcases eq_or_ne q 0 with rfl | hq
    · rwa [nearest_zero]
    -- The grid around `q` is coarser than that of `b`, so `b` is nearer to zero than `q`.
    have hlarge := le_abs_of_gridExp hq (he.trans_lt hcoarse)
    have hsmall : |(m : Rat) * 2 ^ e| < 2 ^ 52 * 2 ^ gridExp q := by
      have hm' : |(m : Rat)| < 2 ^ 53 := by exact_mod_cast hm
      calc |(m : Rat) * 2 ^ e| = |(m : Rat)| * 2 ^ e := by rw [abs_mul, abs_of_pos (two_zpow_pos e)]
        _ < 2 ^ 53 * 2 ^ e := mul_lt_mul_of_pos_right hm' (two_zpow_pos e)
        _ = 2 ^ 52 * 2 ^ (e + 1) := by rw [zpow_add_one₀ (by norm_num)]; ring
        _ ≤ 2 ^ 52 * 2 ^ gridExp q := by gcongr <;> [norm_num; omega]
    have hb := abs_lt.1 hsmall
    have hneg : q ≤ (-2 ^ 52 : Int) * 2 ^ gridExp q := by
      norm_num
      rcases abs_cases q with ⟨hq, -⟩ | ⟨hq, -⟩ <;> linarith
    refine (nearest_le_of_mul_le hneg).trans ?_
    norm_num
    linarith

theorem OnGrid.neg (h : OnGrid q) : OnGrid (-q) := by
  obtain ⟨m, e, hm, he, rfl⟩ := h
  exact ⟨-m, e, by rwa [abs_neg], he, by push_cast; ring⟩

theorem OnGrid.exists_multiple {q : Rat} (h : OnGrid q) {k : Int} (hq : 2 ^ k ≤ q) :
    ∃ n : Int, q = n * 2 ^ (k - 52) := by
  obtain ⟨m, e, hm, -, rfl⟩ := h
  have hexp : k - 52 ≤ e := by
    by_contra hlt
    have hm' : (m : Rat) < 2 ^ 53 := by exact_mod_cast (abs_lt.1 hm).2
    have hsmall : (m : Rat) * 2 ^ e < 2 ^ k :=
      calc (m : Rat) * 2 ^ e < 2 ^ 53 * 2 ^ e := mul_lt_mul_of_pos_right hm' (two_zpow_pos e)
        _ = 2 ^ (53 + e) := two_pow_mul_zpow 53 e
        _ ≤ 2 ^ k := zpow_le_zpow_right₀ (by norm_num) (by omega)
    exact hsmall.not_ge hq
  obtain ⟨n, hn⟩ := Int.eq_ofNat_of_zero_le (sub_nonneg.2 hexp)
  refine ⟨m * 2 ^ n, ?_⟩
  rw [Int.cast_mul, Int.cast_pow, Int.cast_ofNat, mul_assoc, two_pow_mul_zpow]
  congr 2
  omega

theorem le_nearest_of_le (hb : OnGrid b) (h : b ≤ q) : b ≤ nearest q := by
  have := nearest_le_of_le hb.neg (neg_le_neg h)
  rw [nearest_neg] at this
  linarith

theorem abs_round_grid_le (q : Rat) : |round (q / 2 ^ gridExp q)| ≤ 2 ^ 53 := by
  have hpos := two_zpow_pos (gridExp q)
  have hlt : |q / 2 ^ gridExp q| < 2 ^ 53 := by
    rw [abs_div, abs_of_pos hpos, div_lt_iff₀ hpos]
    exact abs_lt_of_gridExp q
  rw [abs_lt] at hlt
  rw [abs_le]
  constructor
  · exact le_round_of_le (by push_cast; exact hlt.1.le)
  · exact round_le_of_le (by push_cast; exact hlt.2.le)

theorem le_round_grid (hq : 0 < q) (h : -1074 < gridExp q) :
    2 ^ 52 ≤ round (q / 2 ^ gridExp q) := by
  apply le_round_of_le
  rw [le_div_iff₀ (two_zpow_pos _)]
  have := le_abs_of_gridExp hq.ne' h
  rw [abs_of_pos hq] at this
  exact_mod_cast this

theorem gridExp_mono (hp : 0 < p) (h : p ≤ q) : gridExp p ≤ gridExp q := by
  rw [gridExp, gridExp, abs_of_pos hp, abs_of_pos (hp.trans_le h)]
  exact max_le_max_right _ (by have := Int.log_mono_right (b := 2) hp h; omega)

theorem nearest_mono_of_pos (hp : 0 < p) (h : p ≤ q) : nearest p ≤ nearest q := by
  have hexp := gridExp_mono hp h
  rcases hexp.eq_or_lt with heq | hlt
  · rw [nearest, nearest, heq]
    have hround := round_mono (div_le_div_of_nonneg_right h (two_zpow_pos (gridExp q)).le)
    exact mul_le_mul_of_nonneg_right (by exact_mod_cast hround) (two_zpow_pos _).le
  · have hlow : (round (p / 2 ^ gridExp p) : Rat) ≤ 2 ^ 53 := by
      exact_mod_cast (abs_le.1 (abs_round_grid_le p)).2
    have hhigh : (2 : Rat) ^ 52 ≤ round (q / 2 ^ gridExp q) := by
      exact_mod_cast le_round_grid (hp.trans_le h) ((le_gridExp p).trans_lt hlt)
    calc nearest p ≤ 2 ^ 53 * 2 ^ gridExp p :=
          mul_le_mul_of_nonneg_right hlow (two_zpow_pos _).le
      _ = 2 ^ 52 * 2 ^ (gridExp p + 1) := by rw [zpow_add_one₀ (by norm_num)]; ring
      _ ≤ 2 ^ 52 * 2 ^ gridExp q :=
          mul_le_mul_of_nonneg_left (zpow_le_zpow_right₀ (by norm_num) hlt) (by norm_num)
      _ ≤ nearest q := mul_le_mul_of_nonneg_right hhigh (two_zpow_pos _).le

theorem nearest_eq_self (h : OnGrid q) : nearest q = q :=
  le_antisymm (nearest_le_of_le h le_rfl) (le_nearest_of_le h le_rfl)

theorem onGrid_zero : OnGrid 0 := ⟨0, 0, by norm_num, by norm_num, by norm_num⟩

theorem nearest_nonneg (h : 0 ≤ q) : 0 ≤ nearest q := le_nearest_of_le onGrid_zero h

theorem nearest_mono (h : p ≤ q) : nearest p ≤ nearest q := by
  rcases lt_trichotomy p 0 with hneg | rfl | hpos
  · rcases lt_or_ge q 0 with hq | hq
    · have hflip := nearest_mono_of_pos (neg_pos.2 hq) (neg_le_neg h)
      rw [nearest_neg, nearest_neg] at hflip
      linarith
    · exact (nearest_le_of_le onGrid_zero hneg.le).trans (nearest_nonneg hq)
  · rw [nearest_zero]
    exact nearest_nonneg h
  · exact nearest_mono_of_pos hpos h

theorem abs_nearest (q : Rat) : |nearest q| = nearest |q| := by
  have hnonneg : 0 ≤ nearest |q| := nearest_nonneg (abs_nonneg q)
  rcases abs_cases q with ⟨h, -⟩ | ⟨h, -⟩
  · rw [h] at hnonneg ⊢
    exact abs_of_nonneg hnonneg
  · rw [h, nearest_neg] at hnonneg ⊢
    exact abs_of_nonpos (by linarith)

theorem two_zpow_neg_le_one : (2 : Rat) ^ (-1022 : Int) ≤ 1 :=
  zpow_le_one_of_nonpos₀ (by norm_num) (by norm_num)

theorem abs_nearest_sub_le (h : |q| ≤ b) (hb : 2 ^ (-1022 : Int) ≤ b) :
    |nearest q - q| ≤ b / 2 ^ 53 := by
  rcases eq_or_ne q 0 with rfl | hq
  · rw [nearest_zero, sub_zero, abs_zero]
    exact div_nonneg (h.trans' (abs_nonneg 0)) (by norm_num)
  have hpos := two_zpow_pos (gridExp q)
  have hunit : 2 ^ 52 * 2 ^ gridExp q ≤ b := by
    rcases (le_gridExp q).eq_or_lt with hmin | hmin
    · rw [← hmin, two_pow_mul_zpow]
      exact hb
    · exact (le_abs_of_gridExp hq hmin).trans h
  have hround := abs_round_sub_le (q / 2 ^ gridExp q)
  have heq : nearest q - q = (round (q / 2 ^ gridExp q) - q / 2 ^ gridExp q) * 2 ^ gridExp q := by
    rw [nearest, sub_mul, div_mul_cancel₀ _ hpos.ne']
  rw [heq, abs_mul, abs_of_pos hpos, le_div_iff₀ (by norm_num)]
  calc |(round (q / 2 ^ gridExp q) : Rat) - q / 2 ^ gridExp q| * 2 ^ gridExp q * 2 ^ 53
      ≤ 1 / 2 * 2 ^ gridExp q * 2 ^ 53 := by gcongr
    _ = 2 ^ 52 * 2 ^ gridExp q := by ring
    _ ≤ b := hunit

end Jumpcut.Exact
