import Jumpcut.Proofs.FloatLaws
import Jumpcut.Proofs.OutcomeLaws

namespace Jumpcut

namespace Exact

def largest : Int := (2 ^ 53 - 1) * 2 ^ 971

theorem cast_largest : (largest : Rat) = ((2 ^ 53 - 1 : Int) : Rat) * 2 ^ (971 : Int) := by
  rw [largest, Int.cast_mul, Int.cast_pow]
  rfl

theorem onGrid_largest : OnGrid largest :=
  ⟨2 ^ 53 - 1, 971, by norm_num, by norm_num, cast_largest⟩

theorem largest_lt_limit : (largest : Rat) < limit := by
  rw [cast_largest]
  exact lt_limit (by norm_num) le_rfl

theorem two_pow_le_largest : 2 ^ 53 ≤ largest := by
  calc (2 : Int) ^ 53 ≤ (2 ^ 53 - 1) * 2 ^ 1 := by norm_num
    _ ≤ (2 ^ 53 - 1) * 2 ^ 971 := by gcongr <;> norm_num

variable {q : Rat} {x : Float}

theorem abs_nearest_le {b : Rat} (hb : OnGrid b) (h : |q| ≤ b) : |nearest q| ≤ b := by
  rw [abs_nearest]
  exact nearest_le_of_le hb h

theorem inRange?_of_le (h : |q| ≤ largest) : inRange? q = some q :=
  if_pos (h.trans_lt largest_lt_limit)

theorem inRange?_nearest (h : |q| ≤ largest) : inRange? (nearest q) = some (nearest q) :=
  inRange?_of_le (abs_nearest_le onGrid_largest h)

theorem onGrid_intCast {n : Int} (h : |n| < 2 ^ 53) : OnGrid n :=
  ⟨n, 0, h, by norm_num, by simp⟩

theorem onGrid_one : OnGrid 1 := ⟨1, 0, by norm_num, by norm_num, by norm_num⟩

theorem le_largest (h : |q| ≤ 2 ^ 53) : |q| ≤ largest :=
  h.trans (by exact_mod_cast two_pow_le_largest)

theorem two_zpow_le_largest {k : Int} (h : k ≤ 1023) : (2 : Rat) ^ k ≤ largest := by
  calc (2 : Rat) ^ k ≤ 2 ^ (52 + 971 : Int) := zpow_le_zpow_right₀ (by norm_num) (by omega)
    _ = 2 ^ 52 * 2 ^ (971 : Int) := by rw [zpow_add₀ (by norm_num)]; rfl
    _ ≤ ((2 ^ 53 - 1 : Int) : Rat) * 2 ^ (971 : Int) := by
      have := two_zpow_pos 971
      gcongr
      norm_num
    _ = largest := cast_largest.symm

theorem abs_le_largest (h : ofFloat? x = some q) : |q| ≤ largest := by
  have hstores := stores_unpack h
  have hlimit : |q| < limit := by
    have hself : (⟨Float.Model.pack x.toModel.unpack⟩ : Float) = x := Float.ofBits_toBits x
    have := hstores.ofFloat?
    rw [hself, h, inRange?] at this
    split at this
    · assumption
    · cases this
  rcases hstores.cases with ⟨s, -, rfl⟩ | ⟨s, m, e, hm, -, rfl, hlt, hexp, hform⟩
  · rw [abs_zero]
    exact_mod_cast (by norm_num : (0 : Int) ≤ 2 ^ 53).trans two_pow_le_largest
  · rw [abs_signed] at hlimit ⊢
    have he : e ≤ 971 := by
      by_contra hlarge
      have hfull : 2 ^ 52 ≤ m := hform.resolve_right (by omega)
      exact hlimit.not_ge (limit_le (by exact_mod_cast hfull) (by omega))
    have hle : (m : Rat) ≤ ((2 ^ 53 - 1 : Int) : Rat) := by
      exact_mod_cast (by omega : (m : Int) ≤ 2 ^ 53 - 1)
    rw [cast_largest]
    gcongr
    norm_num

theorem ofFloat?_neg (h : ofFloat? x = some q) : ofFloat? (-x) = some (-q) := by
  have hle : |-q| ≤ largest := by
    rw [abs_neg]
    exact abs_le_largest h
  exact (stores_unpack h).neg.ofFloat?.trans (inRange?_of_le hle)

theorem abs_round_le {n : Int} (h : |q| ≤ n) : |round q| ≤ n := by
  rw [abs_le] at h ⊢
  exact ⟨le_round_of_le (by exact_mod_cast h.1), round_le_of_le h.2⟩

theorem trunc_eq_floor (h : 0 ≤ q) : trunc q = ⌊q⌋ := by
  rw [trunc, Int.tdiv_eq_ediv_of_nonneg (Rat.num_nonneg.2 h), Rat.floor_def']

theorem trunc_nonneg (h : 0 ≤ q) : 0 ≤ trunc q := by
  rw [trunc_eq_floor h]
  exact Int.floor_nonneg.2 h

theorem trunc_le (h : 0 ≤ q) : (trunc q : Rat) ≤ q := by
  rw [trunc_eq_floor h]
  exact Int.floor_le q

theorem trunc_intCast (n : Int) : trunc n = n := by
  rw [trunc]
  simp

theorem nearest_le_mul (h : 2 ^ (-1022 : Int) ≤ q) : nearest q ≤ q * (1 + 1 / 2 ^ 53) := by
  have hpos : 0 < q := (two_zpow_pos _).trans_le h
  have hnear := (abs_le.1 (abs_nearest_sub_le (abs_of_pos hpos).le h)).2
  linarith

theorem nearest_nearest_mul_le {f : Rat} (hq : 1 ≤ q) (hf : 0 ≤ f) (hf' : f ≤ 1 - 1 / 2 ^ 17) :
    nearest (nearest q * f) ≤ q := by
  rcases le_or_gt (nearest q * f) 1 with hsmall | hlarge
  · exact (nearest_le_of_le onGrid_one hsmall).trans hq
  · calc nearest (nearest q * f) ≤ nearest q * f * (1 + 1 / 2 ^ 53) :=
          nearest_le_mul (two_zpow_neg_le_one.trans hlarge.le)
      _ ≤ q * (1 + 1 / 2 ^ 53) * (1 - 1 / 2 ^ 17) * (1 + 1 / 2 ^ 53) := by
        gcongr
        exact nearest_le_mul (two_zpow_neg_le_one.trans hq)
      _ ≤ q := by nlinarith

theorem nearest_inv_bounds (hlo : 1 ≤ q) (hhi : q ≤ 99999) :
    1 / 2 ^ 17 ≤ nearest (1 / q) ∧ nearest (1 / q) ≤ 1 := by
  have hgrid : OnGrid (1 / 2 ^ 17) := ⟨1, -17, by norm_num, by norm_num, by norm_num⟩
  constructor
  · apply le_nearest_of_le hgrid
    rw [div_le_div_iff₀ (by norm_num) (by linarith)]
    linarith
  · apply nearest_le_of_le onGrid_one
    rw [div_le_one (by linarith)]
    exact hlo

theorem one_le_sub_of_nearest {a b : Rat} (ha : OnGrid a) (hb : OnGrid b) (hlow : a = 0 ∨ 1 ≤ a)
    (h : 1 ≤ nearest (b - a)) : 1 ≤ b - a := by
  rcases hlow with rfl | hone
  · rwa [sub_zero, nearest_eq_self hb] at *
  · by_contra hlt
    have hgrid : OnGrid (b - a) := by
      have hpos : 0 < b - a := by
        by_contra hle
        have := nearest_le_of_le onGrid_zero (not_lt.1 hle)
        linarith
      obtain ⟨m, hm⟩ := @OnGrid.exists_multiple a ha 0 (by simpa using hone)
      obtain ⟨n, hn⟩ := @OnGrid.exists_multiple b hb 0 (by simp; linarith)
      have hdiff : b - a = ((n - m : Int) : Rat) * 2 ^ (0 - 52 : Int) := by
        rw [hm, hn]
        push_cast
        ring
      refine ⟨n - m, 0 - 52, ?_, by norm_num, hdiff⟩
      have hunit : (2 : Rat) ^ (0 - 52 : Int) = 1 / 2 ^ 52 := by norm_num
      rw [hdiff, hunit] at hpos hlt
      have hlo : (0 : Rat) < (n - m : Int) := by linarith
      have hhi : ((n - m : Int) : Rat) < 2 ^ 53 := by linarith
      rw [abs_of_pos (by exact_mod_cast hlo)]
      exact_mod_cast hhi
    rw [nearest_eq_self hgrid] at h
    exact hlt h

theorem beq_zero_of_ne (hx : ofFloat? x = some q) (hq : q ≠ 0) : (x == 0.0) = false := by
  rw [← Bool.not_eq_true, beq_zero_iff hx]
  exact hq

end Exact

namespace Number

open Exact Outcome

variable {q p : Rat} {x : Float} {n : Int}

theorem ofFloat?_of_nearestFloat (h : nearestFloat q = .ok x) : ofFloat? x = some (nearest q) := by
  rw [nearestFloat] at h
  split at h
  · next y hy =>
    cases h
    exact ofFloat?_of_toFloat? hy
  · cases h

theorem toFloat?_ok {q : Rat} (h : |q| ≤ largest) :
    ∃ x, toFloat? q = some x ∧ ofFloat? x = some (nearest q) := by
  have hspec := toFloat?_spec q
  rw [inRange?_nearest h] at hspec
  exact Option.map_eq_some_iff.1 hspec

theorem nearestFloat_ok {q : Rat} (h : |q| ≤ largest) :
    ∃ x, nearestFloat q = .ok x ∧ ofFloat? x = some (nearest q) := by
  obtain ⟨x, hx, hvalue⟩ := toFloat?_ok h
  exact ⟨x, by rw [nearestFloat, hx], hvalue⟩

theorem compare?_inf {neg : Bool} (hx : classify x = .inf neg) {a : Number}
    (ha : a.toRat? = some p) :
    compare? (float x) a = some (if neg then .lt else .gt) ∧
      compare? a (float x) = some (if neg then .gt else .lt) := by
  cases a with
  | int n => cases neg <;> simp [compare?, hx, toRat?]
  | frac q => cases neg <;> simp [compare?, hx, toRat?]
  | float y =>
    obtain ⟨neg', m, e, hy⟩ := ofFloat?_finite ha
    have hvalue : ofFloat? y = some p := ha
    cases neg <;> simp [compare?, hx, hy, hvalue]
  | complex re im => cases ha

theorem bounds_of_float (hx : classify x ≠ .nan) {a b : Number} {r : Rat} (ha : a.toRat? = some p)
    (hb : b.toRat? = some r) (hle : ¬ (float x).le a) (hlt : ¬ b.lt (float x)) :
    ∃ q, ofFloat? x = some q ∧ p < q ∧ q ≤ r := by
  cases hq : ofFloat? x with
  | some q =>
    have hfloat : (float x).toRat? = some q := hq
    rw [le_iff_of_toRat? hfloat ha, not_le] at hle
    rw [lt_iff_of_toRat? hb hfloat, not_lt] at hlt
    exact ⟨q, rfl, hle, hlt⟩
  | none =>
    cases hclass : classify x with
    | nan => exact absurd hclass hx
    | inf neg =>
      cases neg with
      | true => simp [le, (compare?_inf hclass ha).1] at hle
      | false => simp [lt, (compare?_inf hclass hb).2] at hlt
    | finite neg m e =>
      rw [ofFloat?, hclass] at hq
      cases hq

theorem lt_one_sub {y : Float} (hx : ofFloat? x = some p) (hy : ofFloat? y = some q) :
    (float (x - y)).lt 1 = true ↔ nearest (p - q) < 1 := by
  by_cases hin : |nearest (p - q)| < limit
  · have hvalue : (float (x - y)).toRat? = some (nearest (p - q)) := by
      rw [toRat?, ofFloat?_sub hx hy, inRange?, if_pos hin]
    rw [lt_iff_of_toRat? hvalue (toRat?_ofNat 1), Nat.cast_one]
  · rw [not_lt] at hin
    have hclass : classify (x - y) = .inf (decide (nearest (p - q) < 0)) :=
      (stores_sub (stores_unpack hx) (stores_unpack hy)).classify_inf hin
    have hone : 1 < limit :=
      (le_abs_self 1).trans_lt ((le_largest (by norm_num)).trans_lt largest_lt_limit)
    have hsign : nearest (p - q) < 1 ↔ nearest (p - q) < 0 := by
      rcases abs_cases (nearest (p - q)) with ⟨habs, hcase⟩ | ⟨habs, hcase⟩
      · rw [habs] at hin
        constructor
        · intro hlt
          linarith
        · intro hlt
          linarith
      · exact ⟨fun _ => hcase, fun _ => by linarith⟩
    rw [hsign, lt, (compare?_inf hclass (toRat?_ofNat 1)).1]
    by_cases hneg : nearest (p - q) < 0 <;> simp [hneg]

theorem toFloat_ok {x : Number} {q : Rat} (hx : x.toRat? = some q) (h : |q| ≤ largest) :
    ∃ y, x.toFloat = .ok y ∧ ofFloat? y = some (nearest q) := by
  cases x with
  | int n =>
    cases hx
    exact nearestFloat_ok h
  | frac q =>
    cases hx
    exact nearestFloat_ok h
  | float y =>
    refine ⟨y, rfl, ?_⟩
    rw [nearest_eq_self (onGrid_of_ofFloat? hx)]
    exact hx
  | complex re im => cases hx

theorem nearestFloat_one : ∃ x, nearestFloat 1 = .ok x ∧ ofFloat? x = some 1 := by
  have := @nearestFloat_ok 1 (le_largest (by norm_num))
  rwa [nearest_eq_self onGrid_one] at this

theorem one_div_ok {speed : Number} (h : speed.toRat? = some q) (hlo : 1 ≤ q) :
    ∃ y, div 1 speed = .ok y ∧
      (y = .frac (1 / q) ∨ ∃ x, y = .float x ∧ ofFloat? x = some (nearest (1 / q))) := by
  have hpos : 0 < q := by linarith
  have hinv : |1 / q| ≤ largest := by
    apply le_largest
    rw [abs_of_pos (by positivity)]
    exact ((div_le_one hpos).2 hlo).trans (by norm_num)
  cases speed with
  | int k =>
    cases h
    have hk : k ≠ 0 := by exact_mod_cast hpos.ne'
    obtain ⟨x, hx, hvalue⟩ := nearestFloat_ok hinv
    refine ⟨.float x, ?_, .inr ⟨x, rfl, hvalue⟩⟩
    change (if k = 0 then _ else nearestFloat ((1 : Int) / (k : Rat)) >>= _) = _
    rw [if_neg hk, Int.cast_one, hx]
    rfl
  | frac r =>
    cases h
    refine ⟨.frac (1 / q), ?_, .inl rfl⟩
    change (if q = 0 then _ else Except.ok (Number.frac ((1 : Int) / q))) = _
    rw [if_neg hpos.ne', Int.cast_one]
  | float z =>
    obtain ⟨a, ha, hone⟩ := nearestFloat_one
    refine ⟨.float (a / z), ?_, .inr ⟨_, rfl, ?_⟩⟩
    · change (nearestFloat ((1 : Int) : Rat) >>= fun a => if z == 0.0 then _ else _) = _
      rw [Int.cast_one, ha, ok_bind, beq_zero_of_ne h hpos.ne']
      rfl
    · rw [ofFloat?_div hone h hpos.ne', inRange?_nearest hinv]
  | complex re im => cases h

theorem share_ok {speed : Number} (h : speed.toRat? = some q) (hlo : 1 ≤ q) (hhi : q ≤ 99999) :
    ∃ y f, (div 1 speed >>= sub 1) = .ok y ∧ y.toRat? = some f ∧ 0 ≤ f ∧ f ≤ 1 - 1 / 2 ^ 17 ∧
      (q = 1 → f = 0) := by
  obtain ⟨y, hy, rfl | ⟨x, rfl, hx⟩⟩ := one_div_ok h hlo
  · have hpos : 0 < q := by linarith
    have hle : 1 / q ≤ 1 := (div_le_one hpos).2 hlo
    have hge : 1 / 2 ^ 17 ≤ 1 / q := by
      rw [div_le_div_iff₀ (by norm_num) hpos]
      linarith
    refine ⟨.frac (1 - 1 / q), 1 - 1 / q, ?_, rfl, by linarith, by linarith, ?_⟩
    · rw [hy]
      change Except.ok (Number.frac (((1 : Int) : Rat) - 1 / q)) = _
      rw [Int.cast_one]
    · rintro rfl
      norm_num
  · obtain ⟨hge, hle⟩ := nearest_inv_bounds hlo hhi
    obtain ⟨a, ha, hone⟩ := nearestFloat_one
    have hgrid : OnGrid (1 - 1 / 2 ^ 17) := ⟨2 ^ 17 - 1, -17, by norm_num, by norm_num, by norm_num⟩
    have hrange : |1 - nearest (1 / q)| ≤ largest := by
      apply le_largest
      rw [abs_of_nonneg (by linarith)]
      linarith
    refine ⟨.float (a - x), nearest (1 - nearest (1 / q)), ?_, ?_, ?_, ?_, ?_⟩
    · rw [hy, ok_bind]
      change (nearestFloat ((1 : Int) : Rat) >>= fun u => pure (float (u - x))) = _
      rw [Int.cast_one, ha]
      rfl
    · change ofFloat? (a - x) = _
      rw [ofFloat?_sub hone hx, inRange?_nearest hrange]
    · exact nearest_nonneg (by linarith)
    · exact nearest_le_of_le hgrid (by linarith)
    · rintro rfl
      rw [div_one, nearest_eq_self onGrid_one, sub_self, nearest_zero]

theorem mul_trunc_ok {y : Number} {f : Rat} (hn : 0 ≤ n) (hn' : n ≤ largest)
    (hy : y.toRat? = some f) (hf : 0 ≤ f) (hf' : f ≤ 1 - 1 / 2 ^ 17) :
    ∃ d, (mul (.int n) y >>= trunc) = .ok d ∧ 0 ≤ d ∧ d ≤ n ∧ (f = 0 → d = 0) := by
  have hq : (0 : Rat) ≤ n := by exact_mod_cast hn
  have hle : f ≤ 1 := by linarith [show (0 : Rat) ≤ 1 / 2 ^ 17 by norm_num]
  have key {v : Rat} (hv : 0 ≤ v) (hvn : v ≤ n) (hv0 : f = 0 → v = 0) :
      0 ≤ Exact.trunc v ∧ Exact.trunc v ≤ n ∧ (f = 0 → Exact.trunc v = 0) := by
    refine ⟨trunc_nonneg hv, by exact_mod_cast (trunc_le hv).trans hvn, fun h => ?_⟩
    rw [hv0 h]
    rfl
  cases y with
  | int k =>
    cases hy
    have hk : k = 0 := by
      have : (k : Rat) < 1 := by linarith [show (0 : Rat) < 1 / 2 ^ 17 by norm_num]
      have hlt : k < 1 := by exact_mod_cast this
      have hge : 0 ≤ k := by exact_mod_cast hf
      omega
    subst hk
    exact ⟨n * 0, rfl, by omega, by omega, fun _ => mul_zero n⟩
  | frac r =>
    cases hy
    have hprod : (n : Rat) * f ≤ n := mul_le_of_le_one_right hq hle
    exact ⟨Exact.trunc (n * f), rfl, key (mul_nonneg hq hf) hprod fun h => by rw [h, mul_zero]⟩
  | float x =>
    have hnear : nearest n ≤ largest := nearest_le_of_le onGrid_largest (by exact_mod_cast hn')
    have hpos : 0 ≤ nearest n * f := mul_nonneg (nearest_nonneg hq) hf
    obtain ⟨a, ha, hvalue⟩ := @nearestFloat_ok n (by rw [abs_of_nonneg hq]; exact_mod_cast hn')
    have hrange : |nearest n * f| ≤ largest := by
      rw [abs_of_nonneg hpos]
      exact (mul_le_of_le_one_right (nearest_nonneg hq) hle).trans hnear
    have hmul : ofFloat? (a * x) = some (nearest (nearest n * f)) := by
      rw [ofFloat?_mul hvalue hy, inRange?_nearest hrange]
    have hbound : nearest (nearest n * f) ≤ n := by
      rcases hn.lt_or_eq with hlt | rfl
      · exact nearest_nearest_mul_le (by exact_mod_cast hlt) hf hf'
      · simp
    refine ⟨Exact.trunc (nearest (nearest n * f)), ?_, key (nearest_nonneg hpos) hbound fun h => ?_⟩
    · change (nearestFloat n >>= _) >>= trunc = _
      rw [ha]
      change trunc (.float (a * x)) = _
      simp only [trunc, toIntBy, hmul]
    · rw [h, mul_zero, nearest_zero]
  | complex re im => cases hy

theorem trunc_float : trunc (.float x) = .ok n ↔ ∃ q, ofFloat? x = some q ∧ Exact.trunc q = n := by
  cases hx : ofFloat? x with
  | some q => simp [trunc, toIntBy, hx]
  | none =>
    simp only [trunc, toIntBy, hx]
    split <;> simp_all

theorem round_float_le (h : (float x).round = .ok n) : |n| ≤ largest := by
  rw [round, toIntBy] at h
  split at h
  · next hx =>
    cases h
    exact abs_round_le (abs_le_largest hx)
  · cases h
  · cases h

end Number

end Jumpcut
