import Jumpcut.Proofs.ArithmeticLaws
import Jumpcut.Render.Sound

/-!
How long the buffer of a layer is. Its length is computed with floats, each of which is close to
the value it stands for; if a tick is a whole number of moments, the length is exact unless it is
beyond what any file can hold.
-/
namespace Jumpcut

open Number

namespace Exact

/-- A value that so many roundings can make of another. -/
def Within (k : Nat) (v q : Rat) : Prop :=
  q * (1 - 1 / 2 ^ 53) ^ k ≤ v ∧ v ≤ q * (1 + 1 / 2 ^ 53) ^ k

namespace Within

variable {j k : Nat} {v w p q : Rat}

theorem refl (k : Nat) (hq : 0 ≤ q) : Within k q q :=
  ⟨mul_le_of_le_one_right hq (pow_le_one₀ (by norm_num) (by norm_num)),
    le_mul_of_one_le_right hq (one_le_pow₀ (by norm_num))⟩

theorem mono (h : Within j v q) (hq : 0 ≤ q) (hjk : j ≤ k) : Within k v q := by
  constructor
  · refine (mul_le_mul_of_nonneg_left ?_ hq).trans h.1
    exact pow_le_pow_of_le_one (by norm_num) (by norm_num) hjk
  · refine h.2.trans ?_
    gcongr
    norm_num

theorem add (hv : Within k v p) (hw : Within k w q) : Within k (v + w) (p + q) := by
  rw [Within, add_mul, add_mul]
  exact ⟨add_le_add hv.1 hw.1, add_le_add hv.2 hw.2⟩

theorem mul_right (h : Within k v q) (hw : 0 ≤ w) : Within k (v * w) (q * w) := by
  rw [Within, mul_right_comm q w, mul_right_comm q w]
  exact ⟨mul_le_mul_of_nonneg_right h.1 hw, mul_le_mul_of_nonneg_right h.2 hw⟩

theorem pos (h : Within k v q) (hq : 0 < q) : 0 < v :=
  (mul_pos hq (pow_pos (by norm_num) k)).trans_le h.1

theorem div_mul_pow {a b : Rat} (hq : q ≠ 0) :
    p / q * a ^ (k + 2) * (q * b) = p * a ^ k * (a ^ 2 * b) := by
  rw [pow_add]
  field_simp

theorem div (hv : Within k v p) (hw : Within 1 w q) (hp : 0 ≤ p) (hq : 0 < q) :
    Within (k + 2) (v / w) (p / q) := by
  have hpos := hw.pos hq
  obtain ⟨hlo, hhi⟩ := hw
  rw [pow_one] at hlo hhi
  constructor
  · rw [le_div_iff₀ hpos]
    calc p / q * (1 - 1 / 2 ^ 53) ^ (k + 2) * w
        ≤ p / q * (1 - 1 / 2 ^ 53) ^ (k + 2) * (q * (1 + 1 / 2 ^ 53)) := by gcongr
      _ = p * (1 - 1 / 2 ^ 53) ^ k * ((1 - 1 / 2 ^ 53) ^ 2 * (1 + 1 / 2 ^ 53)) :=
        div_mul_pow hq.ne'
      _ ≤ p * (1 - 1 / 2 ^ 53) ^ k :=
        mul_le_of_le_one_right (mul_nonneg hp (pow_nonneg (by norm_num) k)) (by norm_num)
      _ ≤ v := hv.1
  · rw [div_le_iff₀ hpos]
    calc v ≤ p * (1 + 1 / 2 ^ 53) ^ k := hv.2
      _ ≤ p * (1 + 1 / 2 ^ 53) ^ k * ((1 + 1 / 2 ^ 53) ^ 2 * (1 - 1 / 2 ^ 53)) :=
        le_mul_of_one_le_right (by positivity) (by norm_num)
      _ = p / q * (1 + 1 / 2 ^ 53) ^ (k + 2) * (q * (1 - 1 / 2 ^ 53)) :=
        (div_mul_pow hq.ne').symm
      _ ≤ p / q * (1 + 1 / 2 ^ 53) ^ (k + 2) * w := by gcongr

theorem nearest (h : Within k v q) (hv : 2 ^ (-1022 : Int) ≤ v) : Within (k + 1) (nearest v) q := by
  have hpos : 0 < v := (two_zpow_pos _).trans_le hv
  have herr := abs_le.1 (abs_nearest_sub_le (abs_of_pos hpos).le hv)
  constructor
  · calc q * (1 - 1 / 2 ^ 53) ^ (k + 1) = q * (1 - 1 / 2 ^ 53) ^ k * (1 - 1 / 2 ^ 53) := by ring
      _ ≤ v * (1 - 1 / 2 ^ 53) := mul_le_mul_of_nonneg_right h.1 (by norm_num)
      _ ≤ Exact.nearest v := by linarith [herr.1]
  · calc Exact.nearest v ≤ v * (1 + 1 / 2 ^ 53) := nearest_le_mul hv
      _ ≤ q * (1 + 1 / 2 ^ 53) ^ k * (1 + 1 / 2 ^ 53) :=
        mul_le_mul_of_nonneg_right h.2 (by norm_num)
      _ = q * (1 + 1 / 2 ^ 53) ^ (k + 1) := by ring

theorem bounds (h : Within k v q) (hq : 0 ≤ q) (hk : k ≤ 8) :
    q - q / 2 ^ 49 ≤ v ∧ v ≤ q + q / 2 ^ 49 := by
  obtain ⟨hlo, hhi⟩ := h.mono hq hk
  constructor
  · calc q - q / 2 ^ 49 = q * (1 - 1 / 2 ^ 49) := by ring
      _ ≤ q * (1 - 1 / 2 ^ 53) ^ 8 := by gcongr; norm_num
      _ ≤ v := hlo
  · calc v ≤ q * (1 + 1 / 2 ^ 53) ^ 8 := hhi
      _ ≤ q * (1 + 1 / 2 ^ 49) := by gcongr; norm_num
      _ = q + q / 2 ^ 49 := by ring

end Within

theorem two_pow_101_le_largest : (2 : Rat) ^ 101 ≤ largest :=
  two_zpow_le_largest (k := 101) (by norm_num)

theorem within_nearest_intCast {n : Int} (h : 0 ≤ n) : Within 1 (nearest n) n := by
  rcases h.eq_or_lt with rfl | hpos
  · rw [Int.cast_zero, nearest_zero]
    exact .refl 1 le_rfl
  · have hone : (1 : Rat) ≤ n := by exact_mod_cast hpos
    refine (Within.refl 0 (by linarith)).nearest (le_trans ?_ hone)
    exact zpow_le_one_of_nonpos₀ (by norm_num) (by norm_num)

end Exact

namespace Number

open Exact Outcome

/-- The outcome of a computation with so many roundings. Fractions are exact and floats are close
to the value, unless that is larger than `top`. -/
def Approximates (top : Rat) (k : Nat) (q : Rat) (r : Except Fault Number) : Prop :=
  r = .ok (.frac q) ∨ (∃ x v, r = .ok (.float x) ∧ ofFloat? x = some v ∧ Within k v q) ∨
    top < q ∧ ∀ y, r = .ok y → ∃ x, y = .float x ∧ ofFloat? x = none

namespace Approximates

variable {top p q v : Rat} {k : Nat} {r : Except Fault Number} {n : Int}

theorem of_nearest {x : Float} (hx : ofFloat? x = inRange? (nearest v)) (h : Within k v q)
    (hq : 1 ≤ q) (hk : k ≤ 8) (htop : top ≤ 2 ^ 100) :
    Approximates top (k + 1) q (.ok (.float x)) := by
  obtain ⟨hlo, hhi⟩ := h.bounds (by linarith) hk
  have hhalf : 1 / 2 ≤ v := by linarith
  by_cases hrange : |nearest v| < limit
  · rw [inRange?, if_pos hrange] at hx
    refine .inr (.inl ⟨x, _, rfl, hx, h.nearest (le_trans ?_ hhalf)⟩)
    rw [one_div, ← zpow_neg_one]
    exact zpow_le_zpow_right₀ (by norm_num) (by norm_num)
  · rw [inRange?, if_neg hrange] at hx
    refine .inr (.inr ⟨?_, ?_⟩)
    · have hlarge : (2 : Rat) ^ 101 < v := by
        by_contra hle
        have hle : |v| ≤ largest := by
          rw [abs_of_pos (by linarith)]
          exact (not_lt.1 hle).trans two_pow_101_le_largest
        exact hrange ((abs_nearest_le onGrid_largest hle).trans_lt largest_lt_limit)
      linarith
    · rintro y ⟨⟩
      exact ⟨x, rfl, hx⟩

theorem nearestFloat_cases (hn : 0 ≤ n) :
    (∃ x, nearestFloat n = .ok x ∧ ofFloat? x = some (nearest n)) ∨
      (2 : Rat) ^ 101 < n ∧ ∃ e, nearestFloat n = .error e := by
  cases h : nearestFloat n with
  | ok x => exact .inl ⟨x, rfl, ofFloat?_of_nearestFloat h⟩
  | error e =>
    refine .inr ⟨?_, e, rfl⟩
    by_contra hle
    have hle : |(n : Rat)| ≤ largest := by
      rw [abs_of_nonneg (by exact_mod_cast hn)]
      exact (not_lt.1 hle).trans two_pow_101_le_largest
    obtain ⟨x, hx, -⟩ := nearestFloat_ok hle
    rw [hx] at h
    cases h

theorem playTime {dur : Int} {speed : Number} (hspeed : speed.toRat? = some 1) (hdur : 1 ≤ dur) :
    Approximates (2 ^ 100) 1 dur (playTime dur speed) := by
  have hzero : 0 ≤ dur := by omega
  have hfloat : ∀ {x}, ofFloat? x = some (nearest dur) →
      Approximates (2 ^ 100) 1 dur (.ok (.float x)) := fun hx =>
    .inr (.inl ⟨_, _, rfl, hx, within_nearest_intCast hzero⟩)
  have herror : ∀ e, (2 : Rat) ^ 101 < dur → Approximates (2 ^ 100) 1 dur (.error e) := fun e h =>
    .inr (.inr ⟨by linarith, by simp⟩)
  rw [Jumpcut.playTime]
  cases speed with
  | int n =>
    obtain rfl : n = 1 := by simpa [toRat?] using hspeed
    rw [div, if_neg one_ne_zero, Int.cast_one, div_one]
    rcases nearestFloat_cases hzero with ⟨x, h, hx⟩ | ⟨hlarge, e, h⟩
    · rw [h]
      exact hfloat hx
    · rw [h]
      exact herror e hlarge
  | frac q =>
    obtain rfl : q = 1 := by simpa [toRat?] using hspeed
    rw [div, if_neg one_ne_zero, div_one]
    exact .inl rfl
  | float y =>
    have hy : ofFloat? y = some 1 := hspeed
    change Approximates _ _ _ (do
      let a ← nearestFloat dur
      if y == 0.0 then .error .divisionByZero else return .float (a / y))
    rw [beq_zero_of_ne hy one_ne_zero]
    rcases nearestFloat_cases hzero with ⟨x, h, hx⟩ | ⟨hlarge, e, h⟩
    · rw [h]
      refine hfloat ?_
      rw [ofFloat?_div hx hy one_ne_zero, div_one, nearest_eq_self (onGrid_of_ofFloat? hx),
        inRange?_of_le (abs_le_largest hx)]
    · rw [h]
      exact herror _ hlarge
  | complex a b => cases hspeed

theorem add (h : Approximates top k q r) (hn : 0 ≤ n) (hq : 1 ≤ q) (hk : 1 ≤ k) (hk' : k ≤ 8)
    (htop : top ≤ 2 ^ 100) : Approximates top (k + 1) (n + q) (r >>= add (.int n)) := by
  have hn' : (0 : Rat) ≤ n := by exact_mod_cast hn
  rcases h with rfl | ⟨x, v, rfl, hx, hv⟩ | ⟨hlarge, hnone⟩
  · exact .inl rfl
  · change Approximates _ _ _ (do return .float ((← nearestFloat n) + x))
    rcases nearestFloat_cases hn with ⟨y, h, hy⟩ | ⟨hlarge, e, h⟩
    · rw [h]
      exact of_nearest (ofFloat?_add hy hx)
        (((within_nearest_intCast hn).mono hn' hk).add hv) (by linarith) hk' htop
    · rw [h]
      exact .inr (.inr ⟨by linarith, by simp⟩)
  · refine .inr (.inr ⟨by linarith, ?_⟩)
    intro y hy
    obtain ⟨z, hz, hy⟩ := bind_eq_ok.1 hy
    obtain ⟨x, rfl, hx⟩ := hnone z hz
    obtain ⟨a, -, hy⟩ := bind_eq_ok.1 hy
    cases hy
    exact ⟨_, rfl, ofFloat?_add_none hx⟩

theorem mul (h : Approximates top k q r) (hn : 1 ≤ n) (hn' : n < 2 ^ 53) (hq : 1 ≤ q) (hk : k ≤ 8)
    (htop : top ≤ 2 ^ 100) : Approximates top (k + 1) (q * n) (r >>= fun x => x.mul (.int n)) := by
  have hone : (1 : Rat) ≤ n := by exact_mod_cast hn
  have hle : q ≤ q * n := le_mul_of_one_le_right (by linarith) hone
  rcases h with rfl | ⟨x, v, rfl, hx, hv⟩ | ⟨hlarge, hnone⟩
  · exact .inl rfl
  · change Approximates _ _ _ (do return .float (x * (← nearestFloat n)))
    have hgrid : nearest (n : Rat) = n :=
      nearest_eq_self (onGrid_intCast (by rw [abs_of_pos] <;> omega))
    rcases nearestFloat_cases (by omega : 0 ≤ n) with ⟨y, h, hy⟩ | ⟨hlarge, e, h⟩
    · rw [h]
      rw [hgrid] at hy
      exact of_nearest (ofFloat?_mul hx hy) (hv.mul_right (by linarith)) (by linarith) hk htop
    · have : (n : Rat) < 2 ^ 53 := by exact_mod_cast hn'
      linarith
  · refine .inr (.inr ⟨by linarith, ?_⟩)
    intro y hy
    obtain ⟨z, hz, hy⟩ := bind_eq_ok.1 hy
    obtain ⟨x, rfl, hx⟩ := hnone z hz
    obtain ⟨a, ha, hy⟩ := bind_eq_ok.1 hy
    cases ha
    obtain ⟨b, -, hy⟩ := bind_eq_ok.1 hy
    cases hy
    exact ⟨_, rfl, ofFloat?_mul_none hx⟩

theorem div {tb : Rat} (h : Approximates top k q r) (hq : 1 ≤ q / tb) (hlo : 1 / 2 ^ 64 ≤ tb)
    (hhi : tb ≤ 2 ^ 32) (hk : k ≤ 6) (htop : 0 ≤ top ∧ top ≤ 2 ^ 100) :
    Approximates (top / 2 ^ 32) (k + 3) (q / tb) (r >>= fun x => x.div (.frac tb)) := by
  have hpos : 0 < tb := lt_of_lt_of_le (by norm_num) hlo
  have hqpos : 0 < q := by
    rw [le_div_iff₀ hpos] at hq
    linarith
  rcases h with rfl | ⟨x, v, rfl, hx, hv⟩ | ⟨hlarge, hnone⟩
  · exact .inl (if_neg hpos.ne')
  · change Approximates _ _ _ (do
      let b ← nearestFloat tb
      if b == 0.0 then .error .divisionByZero else return .float (x / b))
    have hrange : |tb| ≤ 2 ^ 53 := by
      rw [abs_of_pos hpos]
      linarith
    obtain ⟨b, hb, hvalue⟩ := nearestFloat_ok (le_largest hrange)
    have hwithin : Within 1 (nearest tb) tb := by
      refine (Within.refl 0 hpos.le).nearest (le_trans ?_ hlo)
      rw [one_div, ← zpow_natCast, ← zpow_neg]
      exact zpow_le_zpow_right₀ (by norm_num) (by norm_num)
    have hne : nearest tb ≠ 0 := (hwithin.pos hpos).ne'
    rw [hb, ok_bind, beq_zero_of_ne hvalue hne]
    exact of_nearest (ofFloat?_div hx hvalue hne) (hv.div hwithin hqpos.le hpos) hq (by omega) (by
      have := htop.2
      linarith)
  · refine .inr (.inr ⟨?_, ?_⟩)
    · calc top / 2 ^ 32 < q / 2 ^ 32 := by gcongr
        _ ≤ q / tb := by gcongr
    · intro y hy
      obtain ⟨z, hz, hy⟩ := bind_eq_ok.1 hy
      obtain ⟨x, rfl, hx⟩ := hnone z hz
      obtain ⟨a, ha, hy⟩ := bind_eq_ok.1 hy
      cases ha
      obtain ⟨b, -, hy⟩ := bind_eq_ok.1 hy
      split at hy
      · cases hy
      · cases hy
        exact ⟨_, rfl, ofFloat?_div_none hx⟩

theorem round (h : Approximates top k n r) (hn : 1 ≤ n) (hk : k ≤ 8) (htop : 2 ^ 34 ≤ top) :
    n ≤ 2 ^ 34 ∧ r >>= round = .ok n ∨
      2 ^ 34 < n ∧ ∀ m, r >>= round = .ok m → 2 ^ 33 < m := by
  have hone : (1 : Rat) ≤ n := by exact_mod_cast hn
  rcases h with rfl | ⟨x, v, rfl, hx, hv⟩ | ⟨hlarge, hnone⟩
  · have hround : round (.frac n) = .ok n := congrArg _ (round_intCast n)
    rcases le_or_gt n (2 ^ 34) with hle | hgt
    · exact .inl ⟨hle, hround⟩
    · refine .inr ⟨hgt, fun m hm => ?_⟩
      cases hm.symm.trans hround
      omega
  · have hround : round (.float x) = .ok (Exact.round v) := by
      rw [round, toIntBy, hx]
    obtain ⟨hlo, hhi⟩ := hv.bounds (by linarith) hk
    rcases le_or_gt n (2 ^ 34) with hle | hgt
    · have hle' : (n : Rat) ≤ 2 ^ 34 := by exact_mod_cast hle
      have hclose : |(n : Rat) - v| < 1 / 2 := by
        rw [abs_lt]
        constructor <;> linarith
      refine .inl ⟨hle, hround.trans ?_⟩
      rw [round_eq_of hclose.le fun heq => absurd heq hclose.ne]
    · have hgt' : (2 : Rat) ^ 34 < n := by exact_mod_cast hgt
      refine .inr ⟨hgt, fun m hm => ?_⟩
      cases hm.symm.trans hround
      have : (2 ^ 33 + 1 : Int) ≤ Exact.round v := le_round_of_le (by push_cast; linarith)
      omega
  · refine .inr ⟨by exact_mod_cast htop.trans_lt hlarge, fun m hm => ?_⟩
    obtain ⟨z, hz, hm⟩ := bind_eq_ok.1 hm
    obtain ⟨x, rfl, hx⟩ := hnone z hz
    rw [Number.round, toIntBy, hx] at hm
    split at hm <;> simp_all

end Approximates

end Number

section Length

variable {rate : Int} {tb : Rat} {per : Nat} {last : AudioClip}

end Length

end Jumpcut
