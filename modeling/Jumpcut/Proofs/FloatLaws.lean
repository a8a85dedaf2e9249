import Jumpcut.Proofs.FloatBitsLaws

namespace Jumpcut.Exact

open Float.Model Float.Model.UnpackedFloat Format ExtendedMantissa

/-- The mantissa is the whole part of a number, and its two bits say how the rest of it compares
with a half. -/
def Truncates (em : ExtendedMantissa) (x : Rat) : Prop :=
  ∃ f, x = em.mantissa + f ∧
    match em.roundBit, em.stickyBit with
    | false, false => f = 0
    | false, true => 0 < f ∧ f < 1 / 2
    | true, false => f = 1 / 2
    | true, true => 1 / 2 < f ∧ f < 1

theorem truncates_exact (m : Nat) : Truncates (ofMantissaAndAccuracy m .exact) m :=
  ⟨0, (add_zero _).symm, rfl⟩

theorem truncates_fraction (m : Nat) {num den : Nat} (h : num < den) :
    Truncates (ofMantissaAndAccuracy m (accuracyOfFraction num den))
      (m + num / den) := by
  have hden : (0 : Rat) < den := by exact_mod_cast Nat.zero_lt_of_lt h
  rw [accuracyOfFraction]
  split
  · next h₀ => simpa [h₀] using truncates_exact m
  · next h₀ =>
    have hlt : (num : Rat) < den := by exact_mod_cast h
    rcases lt_trichotomy (2 * num) den with hc | hc | hc
    · have hc' : (2 : Rat) * num < den := by exact_mod_cast hc
      rw [Nat.compare_eq_lt.2 hc]
      refine ⟨num / den, rfl, by positivity, ?_⟩
      rw [div_lt_div_iff₀ hden (by norm_num)]
      linarith
    · have hc' : (2 : Rat) * num = den := by exact_mod_cast hc
      rw [Nat.compare_eq_eq.2 hc]
      refine ⟨num / den, rfl, ?_⟩
      change (num : Rat) / den = 1 / 2
      rw [div_eq_div_iff hden.ne' (by norm_num)]
      linarith
    · have hc' : (den : Rat) < 2 * num := by exact_mod_cast hc
      rw [Nat.compare_eq_gt.2 hc]
      refine ⟨num / den, rfl, ?_, ?_⟩
      · rw [div_lt_div_iff₀ (by norm_num) hden]
        linarith
      · rwa [div_lt_one hden]

variable {em : ExtendedMantissa} {m n : Nat} {e f : Int} {acc : Accuracy} {u v : UnpackedFloat}
  {a b q : Rat} {x y : Float}

theorem Truncates.shiftRightOne {x : Rat} (h : Truncates em x) :
    Truncates em.shiftRightOne (x / 2) := by
  obtain ⟨m, r, s⟩ := em
  obtain ⟨f, rfl, hf⟩ := h
  have hsplit : (m : Rat) = 2 * (m / 2 : Nat) + (m % 2 : Nat) := by
    exact_mod_cast (Nat.div_add_mod m 2).symm
  refine ⟨((m % 2 : Nat) + f) / 2, ?_, ?_⟩
  · change ((m : Rat) + f) / 2 = (m / 2 : Nat) + ((m % 2 : Nat) + f) / 2
    rw [hsplit]
    ring
  · rcases Nat.mod_two_eq_zero_or_one m with hm | hm <;> cases r <;> cases s <;>
      simp_all [shiftRightOne] <;>
      (try constructor) <;> linarith

theorem Truncates.shiftRight {x : Rat} (h : Truncates em x) (n : Nat) :
    Truncates (em >>> n) (x / 2 ^ n) := by
  change Truncates (n.repeat ExtendedMantissa.shiftRightOne em) _
  induction n with
  | zero => simpa [Nat.repeat] using h
  | succ n ih =>
    rw [pow_succ, ← div_div]
    exact ih.shiftRightOne

theorem Truncates.round_eq {x : Rat} (h : Truncates em x) : round x = em.roundedMantissa := by
  obtain ⟨m, r, s⟩ := em
  obtain ⟨f, rfl, hf⟩ := h
  match r, s, hf with
  | false, false, hf =>
    change f = 0 at hf
    change _ = (m : Int)
    apply round_eq_of <;> simp [hf]
  | false, true, ⟨hlo, hhi⟩ =>
    change _ = (m : Int)
    have habs : |((m : Int) : Rat) - (m + f)| = f := by
      rw [abs_sub_comm, abs_of_pos] <;> push_cast <;> linarith
    exact round_eq_of (by rw [habs]; exact hhi.le) (by rw [habs]; intro h; linarith)
  | true, false, hf =>
    change f = 1 / 2 at hf
    change _ = ((m + m % 2 : Nat) : Int)
    have habs : |((m + m % 2 : Nat) : Int) - ((m : Rat) + f)| = 1 / 2 := by
      rcases Nat.mod_two_eq_zero_or_one m with h | h <;> rw [h, hf] <;> norm_num
    exact round_eq_of habs.le fun _ => by omega
  | true, true, ⟨hlo, hhi⟩ =>
    change _ = ((m + 1 : Nat) : Int)
    have habs : |((m + 1 : Nat) : Int) - ((m : Rat) + f)| = 1 - f := by
      rw [abs_of_pos] <;> push_cast <;> linarith
    exact round_eq_of (by rw [habs]; linarith) (by rw [habs]; intro h; linarith)

theorem Truncates.bounds {x : Rat} (h : Truncates em x) :
    em.mantissa ≤ x ∧ x < em.mantissa + 1 := by
  obtain ⟨m, r, s⟩ := em
  obtain ⟨f, rfl, hf⟩ := h
  have hf' : 0 ≤ f ∧ f < 1 := by
    match r, s, hf with
    | false, false, hf =>
      change f = 0 at hf
      constructor <;> linarith
    | false, true, ⟨hlo, hhi⟩ => constructor <;> linarith
    | true, false, hf =>
      change f = 1 / 2 at hf
      constructor <;> linarith
    | true, true, ⟨hlo, hhi⟩ => constructor <;> linarith
  constructor <;> linarith

@[simp] theorem mantissa_ofMantissaAndAccuracy (m : Nat) (acc : Accuracy) :
    (ofMantissaAndAccuracy m acc).mantissa = m := by
  match acc with
  | .exact | .inexact .lt | .inexact .eq | .inexact .gt => rfl

theorem targetExponent_eq (m : Nat) (e : Int) :
    binary64.targetExponent (totalExponent m e) = max (m.log2 + e - 52) (-1074) := by
  rw [targetExponent, totalExponent]
  change max ((m.log2 : Int) + 1 + e - 53) (-1074) = _
  congr 1
  ring

theorem shiftToTargetExponent_of_lt {r : Nat} (hr : r < 2 ^ 53) (he : -1074 ≤ e) :
    shiftToTargetExponent binary64 r e .exact = (⟨r, false, false⟩, e) := by
  have hlog : r.log2 ≤ 52 := by
    rcases eq_or_ne r 0 with rfl | hne
    · decide
    · have := (Nat.log2_lt hne).2 hr
      omega
  have hshift : (binary64.targetExponent (totalExponent r e) - e).toNat = 0 := by
    rw [targetExponent_eq]
    omega
  rw [shiftToTargetExponent, shiftToExponent, hshift]
  simp
  rfl

theorem shiftToTargetExponent_carry (he : -1074 ≤ e) :
    shiftToTargetExponent binary64 (2 ^ 53) e .exact = (⟨2 ^ 52, false, false⟩, e + 1) := by
  have hshift : (binary64.targetExponent (totalExponent (2 ^ 53) e) - e).toNat = 1 := by
    rw [targetExponent_eq, Nat.log2_two_pow]
    omega
  rw [shiftToTargetExponent, shiftToExponent, hshift]
  rfl

section

variable (s : Sign) {x : Rat} (hx : Truncates (ofMantissaAndAccuracy m acc) x)
  (hne : x ≠ 0) (hc : 52 ≤ m.log2 ∨ e ≤ -1074)

include hx hne hc

theorem targetExponent_eq_gridExp :
    binary64.targetExponent (totalExponent m e) = gridExp (x * 2 ^ e) := by
  obtain ⟨hlo, hhi⟩ := hx.bounds
  rw [mantissa_ofMantissaAndAccuracy] at hlo hhi
  have hpow := two_zpow_pos e
  rw [targetExponent_eq, gridExp]
  rcases Nat.eq_zero_or_pos m with rfl | hm
  · have hsmall : Int.log 2 |x * 2 ^ e| < e := by
      rw [abs_of_pos (by positivity)]
      apply (Int.lt_zpow_iff_log_lt (b := 2) (by norm_num) (by positivity)).1
      have hx1 : x < 1 := by simpa using hhi
      push_cast
      nlinarith
    have hzero : Nat.log2 0 = 0 := by decide
    rw [hzero] at hc ⊢
    omega
  · have hlog : Int.log 2 |x * 2 ^ e| = m.log2 + e := by
      have hlow : (2 : Rat) ^ m.log2 ≤ m := by exact_mod_cast Nat.log2_self_le hm.ne'
      have hhigh : (m : Rat) + 1 ≤ 2 ^ (m.log2 + 1) := by exact_mod_cast Nat.lt_log2_self
      apply log_eq_of_bounds
      · rw [zpow_add₀ (by norm_num), zpow_natCast]
        exact mul_le_mul_of_nonneg_right (hlow.trans hlo) hpow.le
      · rw [add_right_comm, zpow_add₀ (by norm_num)]
        refine mul_lt_mul_of_pos_right (hhi.trans_le ?_) hpow
        exact_mod_cast hhigh
    rw [hlog]

theorem truncates_shiftToTargetExponent :
    ∃ em, shiftToTargetExponent binary64 m e acc = (em, gridExp (x * 2 ^ e)) ∧
      Truncates em (x * 2 ^ e / 2 ^ gridExp (x * 2 ^ e)) := by
  have htarget := targetExponent_eq_gridExp (e := e) hx hne hc
  have hle : e ≤ gridExp (x * 2 ^ e) := by
    rw [← htarget, targetExponent_eq]
    omega
  obtain ⟨k, hk⟩ := Int.eq_ofNat_of_zero_le (sub_nonneg.2 hle)
  rw [shiftToTargetExponent, shiftToExponent, htarget, hk]
  refine ⟨_, Prod.ext rfl ?_, ?_⟩
  · change e + (k : Int) = _
    omega
  · have hscale : x * 2 ^ e / 2 ^ gridExp (x * 2 ^ e) = x / 2 ^ k := by
      have hg : gridExp (x * 2 ^ e) = e + k := by omega
      rw [hg, zpow_add₀ (by norm_num), zpow_natCast, mul_comm ((2 : Rat) ^ e),
        mul_div_mul_right _ _ (two_zpow_pos e).ne']
    rw [hscale]
    exact hx.shiftRight k

theorem stores_roundWithAccuracy :
    Stores (roundWithAccuracy binary64 s m e acc) (signed s (nearest (x * 2 ^ e))) := by
  obtain ⟨em, hshift, htrunc⟩ := truncates_shiftToTargetExponent hx hne hc
  have hpos : 0 ≤ x := le_trans (by positivity) hx.bounds.1
  have hv : 0 < x * 2 ^ e := mul_pos (lt_of_le_of_ne hpos hne.symm) (two_zpow_pos e)
  generalize x * 2 ^ e = v at *
  have hround := htrunc.round_eq
  have hnearest : nearest v = em.roundedMantissa * 2 ^ gridExp v := by
    rw [nearest, hround, Int.cast_natCast]
  have hexp := le_gridExp v
  have hupper : em.roundedMantissa ≤ 2 ^ 53 := by
    have := abs_le.1 (abs_round_grid_le v)
    rw [hround] at this
    exact_mod_cast this.2
  have hlower : 2 ^ 52 ≤ em.roundedMantissa ∨ gridExp v = -1074 := by
    rcases hexp.lt_or_eq with hlt | heq
    · left
      have := le_round_grid hv hlt
      rw [hround] at this
      exact_mod_cast this
    · exact .inr heq.symm
  rw [roundWithAccuracy, hshift, hnearest]
  rcases hupper.lt_or_eq with hlt | heq
  · simp only [shiftToTargetExponent_of_lt hlt hexp]
    split
    · next hzero =>
      refine ⟨trivial, ?_⟩
      cases s <;> simp [value?, signed, hzero]
    · exact ⟨⟨hlt, hexp, hlower⟩, rfl⟩
  · simp only [heq, shiftToTargetExponent_carry hexp]
    refine ⟨⟨by norm_num, by omega, .inl le_rfl⟩, ?_⟩
    change some _ = some _
    rw [zpow_add_one₀ (by norm_num)]
    congr 2
    push_cast
    ring

end

theorem signed_mul (s t : Sign) (a b : Rat) : signed s a * signed t b = signed (s * t) (a * b) := by
  cases s <;> cases t <;> simp [signed]

theorem signed_div (s t : Sign) (a b : Rat) : signed s a / signed t b = signed (s / t) (a / b) := by
  cases s <;> cases t <;> simp [signed, neg_div, div_neg] <;> rfl

theorem nearest_signed (s : Sign) (q : Rat) : nearest (signed s q) = signed s (nearest q) := by
  cases s with
  | positive => rfl
  | negative => exact nearest_neg q

theorem stores_round_exact (s : Sign) (hm : 0 < m) (hc : 52 ≤ m.log2 ∨ e ≤ -1074) :
    Stores (roundWithAccuracy binary64 s m e .exact) (signed s (nearest (m * 2 ^ e))) := by
  have hne : (m : Rat) ≠ 0 := by exact_mod_cast hm.ne'
  exact stores_roundWithAccuracy s (truncates_exact m) hne hc

theorem stores_mul (hu : Stores u a) (hv : Stores v b) :
    Stores (u.mul binary64 v) (nearest (a * b)) := by
  rcases hu.cases with ⟨s, rfl, rfl⟩ | ⟨s, m, e, hm, rfl, rfl, -, -, hform⟩
  · rcases hv.cases with ⟨t, rfl, rfl⟩ | ⟨t, n, f, hn, rfl, rfl, -⟩
    · simpa [UnpackedFloat.mul] using stores_zero (s * t)
    · simpa [UnpackedFloat.mul] using stores_zero (s * t)
  · rcases hv.cases with ⟨t, rfl, rfl⟩ | ⟨t, n, f, hn, rfl, rfl, -, -, hform'⟩
    · simpa [UnpackedFloat.mul] using stores_zero (s * t)
    · have hprod : ((m * n : Nat) : Rat) * 2 ^ (e + f) = m * 2 ^ e * (n * 2 ^ f) := by
        rw [zpow_add₀ (by norm_num)]
        push_cast
        ring
      rw [signed_mul, nearest_signed, ← hprod]
      apply stores_round_exact _ (Nat.mul_pos hm hn)
      rw [Nat.le_log2 (Nat.mul_pos hm hn).ne']
      -- If one factor has full length, the product has it as well.
      rcases hform with h | h
      · exact .inl (h.trans (Nat.le_mul_of_pos_right m hn))
      · rcases hform' with h' | h'
        · exact .inl (h'.trans (Nat.le_mul_of_pos_left n hm))
        · exact .inr (by omega)

theorem two_pow_log2_add_le (hm : 0 < m) (k : Nat) : 2 ^ (m.log2 + k) ≤ m * 2 ^ k := by
  rw [pow_add]
  exact Nat.mul_le_mul_right _ (Nat.log2_self_le hm.ne')

theorem stores_round (s : Sign) (hm : 0 < m) :
    Stores (UnpackedFloat.round binary64 s m e) (signed s (nearest (m * 2 ^ e))) := by
  rw [UnpackedFloat.round, decreaseExponent, targetExponent_eq]
  generalize hk : (e - max ((m.log2 : Int) + e - 52) (-1074)).toNat = k
  have hvalue : ((m <<< k : Nat) : Rat) * 2 ^ (e - k) = m * 2 ^ e := by
    rw [Nat.shiftLeft_eq, zpow_sub₀ (by norm_num), zpow_natCast]
    push_cast
    field_simp
  have hpos : 0 < m <<< k := by
    rw [Nat.shiftLeft_eq]
    positivity
  rw [← hvalue]
  apply stores_round_exact s hpos
  rw [Nat.le_log2 hpos.ne', Nat.shiftLeft_eq]
  rcases le_or_gt (e - k) (-1074) with h | h
  · exact .inr h
  · left
    have hlog : 52 ≤ m.log2 + k := by omega
    exact (Nat.pow_le_pow_right (by norm_num) hlog).trans (two_pow_log2_add_le hm k)

theorem stores_normalize (m e : Int) (z : Sign) :
    Stores (normalize binary64 m e z) (nearest (m * 2 ^ e)) := by
  rw [UnpackedFloat.normalize]
  rcases lt_trichotomy m 0 with h | rfl | h
  · rw [Int.compare_eq_lt.2 h]
    have habs : (((-m).toNat : Nat) : Rat) = -m := by
      have : (((-m).toNat : Nat) : Int) = -m := by omega
      exact_mod_cast this
    have := stores_round .negative (m := (-m).toNat) (e := e) (by omega)
    rwa [habs, neg_mul, nearest_neg, signed, neg_neg] at this
  · simpa using stores_zero z
  · rw [Int.compare_eq_gt.2 h]
    have habs : ((m.toNat : Nat) : Rat) = m := by
      have : ((m.toNat : Nat) : Int) = m := by omega
      exact_mod_cast this
    have := stores_round .positive (m := m.toNat) (e := e) (by omega)
    rwa [habs, signed] at this

theorem Stores.neg (h : Stores u q) : Stores u.neg (-q) := by
  rcases h.cases with ⟨s, rfl, rfl⟩ | ⟨s, m, e, hm, rfl, rfl, hform⟩
  · rw [neg_zero]
    exact stores_zero (-s)
  · refine ⟨hform, ?_⟩
    cases s <;> simp [UnpackedFloat.neg, value?, signed]

theorem signed_decreaseExponent (s : Sign) (m : Nat) (h : f ≤ e) :
    ((s.apply ((decreaseExponent m e f).1 : Int) : Int) : Rat) * 2 ^ f = signed s (m * 2 ^ e) := by
  obtain ⟨k, hk⟩ := Int.eq_ofNat_of_zero_le (sub_nonneg.2 h)
  have hvalue : ((m <<< k : Nat) : Rat) * 2 ^ f = m * 2 ^ e := by
    obtain rfl : e = f + k := by omega
    rw [Nat.shiftLeft_eq, zpow_add₀ (by norm_num), zpow_natCast]
    push_cast
    ring
  have hfst : (decreaseExponent m e f).1 = m <<< k := by
    rw [decreaseExponent, hk]
    rfl
  rw [hfst, ← hvalue]
  cases s <;> simp only [Sign.apply, signed, Int.cast_neg, Int.cast_natCast, neg_mul]

theorem stores_add (hu : Stores u a) (hv : Stores v b) :
    Stores (u.add binary64 v) (nearest (a + b)) := by
  rcases hu.cases with ⟨s, rfl, rfl⟩ | ⟨s, m, e, hm, rfl, rfl, -⟩
  · rcases hv.cases with ⟨t, rfl, rfl⟩ | ⟨t, n, f, hn, rfl, rfl, -⟩
    · rw [UnpackedFloat.add]
      split <;> simpa using stores_zero _
    · rw [zero_add, nearest_eq_self hv.onGrid]
      exact hv
  · rcases hv.cases with ⟨t, rfl, rfl⟩ | ⟨t, n, f, hn, rfl, rfl, -⟩
    · rw [add_zero, nearest_eq_self hu.onGrid]
      exact hu
    · have hadd := stores_normalize (s.apply ((decreaseExponent m e (min e f)).1 : Int) +
        t.apply ((decreaseExponent n f (min e f)).1 : Int)) (min e f) .positive
      rw [Int.cast_add, add_mul, signed_decreaseExponent s m (min_le_left e f),
        signed_decreaseExponent t n (min_le_right e f)] at hadd
      exact hadd

theorem sub_eq_add (u v : UnpackedFloat) : u.sub binary64 v = u.add binary64 v.neg := by
  cases v with
  | notANumber | infinity t | zero t => cases u <;> rfl
  | finite t n f hn =>
    cases u with
    | notANumber | infinity s | zero s => rfl
    | finite s m e hm =>
      cases t with
      | positive => rfl
      | negative => exact congrArg (normalize _ · _ _) (Int.sub_neg _ _)

theorem stores_sub (hu : Stores u a) (hv : Stores v b) :
    Stores (u.sub binary64 v) (nearest (a - b)) := by
  rw [sub_eq_add, sub_eq_add_neg]
  exact stores_add hu hv.neg

theorem divCore_spec (hm : 0 < m) (hn : 0 < n) (e f : Int) :
    ∃ q r g, divCore binary64 m e n f = (q, g, accuracyOfFraction r n) ∧ r < n ∧
      ((q : Rat) + r / n) * 2 ^ g = m * 2 ^ e / (n * 2 ^ f) ∧ (52 ≤ q.log2 ∨ g ≤ -1074) := by
  have htarget : binary64.targetExponent (totalExponent m e - totalExponent n f) =
      max ((m.log2 : Int) + e - n.log2 - f - 53) (-1074) := by
    change max ((m.log2 : Int) + 1 + e - (n.log2 + 1 + f) - 53) (-1074) = _
    congr 1
    ring
  rw [divCore, htarget]
  generalize hg : min (e - f) (max ((m.log2 : Int) + e - n.log2 - f - 53) (-1074)) = g
  obtain ⟨k, hk⟩ := Int.eq_ofNat_of_zero_le (show 0 ≤ e - f - g by omega)
  rw [hk]
  refine ⟨m <<< k / n, m <<< k % n, g, rfl, Nat.mod_lt _ hn, ?_, ?_⟩
  · have hn' : (n : Rat) ≠ 0 := by exact_mod_cast hn.ne'
    have hsplit : ((m <<< k / n : Nat) : Rat) + (m <<< k % n : Nat) / n = (m <<< k : Nat) / n := by
      rw [eq_div_iff hn', add_mul, div_mul_cancel₀ _ hn']
      exact_mod_cast Nat.div_add_mod' (m <<< k) n
    obtain rfl : e = f + g + k := by omega
    rw [hsplit, Nat.shiftLeft_eq, zpow_add₀ (by norm_num), zpow_add₀ (by norm_num), zpow_natCast]
    have := two_zpow_pos f
    push_cast
    field_simp
  · rcases le_or_gt g (-1074) with h | h
    · exact .inr h
    · left
      have hlog : 53 + n.log2 ≤ m.log2 + k := by omega
      have hle : 2 ^ 52 ≤ m <<< k / n := by
        rw [Nat.le_div_iff_mul_le hn, Nat.shiftLeft_eq]
        calc 2 ^ 52 * n ≤ 2 ^ 52 * 2 ^ (n.log2 + 1) := Nat.mul_le_mul_left _ Nat.lt_log2_self.le
          _ = 2 ^ (53 + n.log2) := by ring
          _ ≤ 2 ^ (m.log2 + k) := Nat.pow_le_pow_right (by norm_num) hlog
          _ ≤ m * 2 ^ k := two_pow_log2_add_le hm k
      exact (Nat.le_log2 (by omega)).2 hle

theorem stores_div (hu : Stores u a) (hv : Stores v b) (hb : b ≠ 0) :
    Stores (u.div binary64 v) (nearest (a / b)) := by
  rcases hv.cases with ⟨t, rfl, rfl⟩ | ⟨t, n, f, hn, rfl, rfl, -⟩
  · exact absurd rfl hb
  rcases hu.cases with ⟨s, rfl, rfl⟩ | ⟨s, m, e, hm, rfl, rfl, -⟩
  · simpa [UnpackedFloat.div] using stores_zero (s / t)
  · obtain ⟨q, r, g, hcore, hr, hvalue, hc⟩ := divCore_spec hm hn e f
    rw [signed_div, nearest_signed, ← hvalue, UnpackedFloat.div, hcore]
    have hne : (q : Rat) + r / n ≠ 0 := by
      intro h
      rw [h, zero_mul] at hvalue
      have : (0 : Rat) < m * 2 ^ e / (n * 2 ^ f) := by positivity
      exact this.ne hvalue
    exact stores_roundWithAccuracy (s / t) (truncates_fraction q hr) hne hc

section

variable (hx : ofFloat? x = some a) (hy : ofFloat? y = some b)

include hx hy

theorem ofFloat?_mul : ofFloat? (x * y) = inRange? (nearest (a * b)) :=
  (stores_mul (stores_unpack hx) (stores_unpack hy)).ofFloat?

theorem ofFloat?_sub : ofFloat? (x - y) = inRange? (nearest (a - b)) :=
  (stores_sub (stores_unpack hx) (stores_unpack hy)).ofFloat?

theorem ofFloat?_add : ofFloat? (x + y) = inRange? (nearest (a + b)) :=
  (stores_add (stores_unpack hx) (stores_unpack hy)).ofFloat?

theorem ofFloat?_div (hb : b ≠ 0) : ofFloat? (x / y) = inRange? (nearest (a / b)) :=
  (stores_div (stores_unpack hx) (stores_unpack hy) hb).ofFloat?

end

theorem classify_ne_nan_iff : classify x ≠ .nan ↔ x.toModel.unpack ≠ .notANumber := by
  rw [classify_eq_classOf]
  cases x.toModel.unpack <;> simp [classOf]

theorem classify_ne_nan_of_ofFloat? (h : ofFloat? x = some q) : classify x ≠ .nan := by
  intro hnan
  rw [ofFloat?, hnan] at h
  cases h

theorem classify_pack_ne_nan (hc : Canonical u) (hu : u ≠ .notANumber) :
    classify ⟨pack u⟩ ≠ .nan := by
  rw [classify_ne_nan_iff]
  change UnpackedFloat.unpack binary64 (UnpackedFloat.pack binary64 u) ≠ _
  cases u with
  | notANumber => exact absurd rfl hu
  | infinity s =>
    rw [UnpackedFloat.pack, unpack_packedInfinity]
    exact nofun
  | zero s =>
    rw [UnpackedFloat.pack, unpack_packedZero]
    exact nofun
  | finite s m e hm =>
    rw [unpack_pack_of_canonical hc]
    split <;> exact nofun

theorem classify_neg_ne_nan (hx : classify x ≠ .nan) : classify (-x) ≠ .nan := by
  have hc := canonical_unpack x
  rw [classify_ne_nan_iff] at hx
  change classify ⟨pack x.toModel.unpack.neg⟩ ≠ .nan
  cases hu : x.toModel.unpack with
  | notANumber => exact absurd hu hx
  | infinity s => exact classify_pack_ne_nan trivial nofun
  | zero s => exact classify_pack_ne_nan trivial nofun
  | finite s m e hm =>
    rw [hu] at hc
    exact classify_pack_ne_nan hc nofun

theorem classify_div_ne_nan (hx : classify x ≠ .nan) (hy : ofFloat? y = some q) (hq : q ≠ 0) :
    classify (x / y) ≠ .nan := by
  have hv := stores_unpack hy
  change classify ⟨pack (x.toModel.unpack.div binary64 y.toModel.unpack)⟩ ≠ .nan
  cases hvalue : ofFloat? x with
  | some p =>
    have hdiv := stores_div (stores_unpack hvalue) hv hq
    refine classify_pack_ne_nan hdiv.canonical fun hnan => ?_
    have := hdiv.value_eq
    rw [hnan] at this
    cases this
  | none =>
    rw [classify_ne_nan_iff] at hx
    rw [ofFloat?_eq_value?] at hvalue
    rcases hv.cases with ⟨t, hzero, rfl⟩ | ⟨t, n, f, hn, hfin, -⟩
    · exact absurd rfl hq
    · rw [hfin]
      cases hu : x.toModel.unpack with
      | notANumber => exact absurd hu hx
      | infinity s => exact classify_pack_ne_nan trivial nofun
      | zero s =>
        rw [hu] at hvalue
        cases hvalue
      | finite s m e hm =>
        rw [hu] at hvalue
        cases hvalue

theorem ofFloat?_pack_none (h : value? u = none) : ofFloat? ⟨pack u⟩ = none := by
  cases u with
  | infinity s => cases s <;> decide +kernel
  | notANumber => decide +kernel
  | zero s | finite s m e hm => cases h

theorem value?_mul_none (h : value? u = none) (v : UnpackedFloat) :
    value? (u.mul binary64 v) = none := by
  cases u with
  | infinity s | notANumber => cases v <;> rfl
  | zero s | finite s m e hm => cases h

theorem value?_div_none (h : value? u = none) (v : UnpackedFloat) :
    value? (u.div binary64 v) = none := by
  cases u with
  | infinity s | notANumber => cases v <;> rfl
  | zero s | finite s m e hm => cases h

theorem value?_add_none (u : UnpackedFloat) (h : value? v = none) :
    value? (u.add binary64 v) = none := by
  cases v with
  | infinity s =>
    cases u with
    | infinity t => cases s <;> cases t <;> rfl
    | notANumber | zero t | finite t m e hm => rfl
  | notANumber => cases u <;> rfl
  | zero s | finite s m e hm => cases h

theorem ofFloat?_mul_none (h : ofFloat? x = none) : ofFloat? (x * y) = none :=
  ofFloat?_pack_none (value?_mul_none ((ofFloat?_eq_value? x).symm.trans h) _)

theorem ofFloat?_div_none (h : ofFloat? x = none) : ofFloat? (x / y) = none :=
  ofFloat?_pack_none (value?_div_none ((ofFloat?_eq_value? x).symm.trans h) _)

theorem ofFloat?_add_none (h : ofFloat? y = none) : ofFloat? (x + y) = none :=
  ofFloat?_pack_none (value?_add_none _ ((ofFloat?_eq_value? y).symm.trans h))

theorem magnitude_lt (hm : m < 2 ^ 53) (he : -1074 ≤ e) (hn : 2 ^ 52 ≤ n ∨ f = -1074)
    (hlt : e < f) : (m : Rat) * 2 ^ e < n * 2 ^ f := by
  have hfull : 2 ^ 52 ≤ n := hn.resolve_right (by omega)
  calc (m : Rat) * 2 ^ e < 2 ^ 53 * 2 ^ e := by
        have : (m : Rat) < 2 ^ 53 := by exact_mod_cast hm
        have := two_zpow_pos e
        gcongr
    _ = 2 ^ 52 * 2 ^ (e + 1) := by rw [two_pow_mul_zpow, two_pow_mul_zpow]; congr 1; omega
    _ ≤ n * 2 ^ f := by
        have : (2 : Rat) ^ 52 ≤ n := by exact_mod_cast hfull
        gcongr
        · norm_num
        · omega

theorem cmp_magnitude (hm : m < 2 ^ 53) (he : -1074 ≤ e) (hm' : 2 ^ 52 ≤ m ∨ e = -1074)
    (hn : n < 2 ^ 53) (hf : -1074 ≤ f) (hn' : 2 ^ 52 ≤ n ∨ f = -1074) :
    (compare e f).then (compare m n) = cmp ((m : Rat) * 2 ^ e) (n * 2 ^ f) := by
  rcases lt_trichotomy e f with h | rfl | h
  · rw [compare_lt_iff_lt.2 h, (cmp_eq_lt_iff _ _).2 (magnitude_lt hm he hn' h)]
    rfl
  · rw [compare_eq_iff_eq.2 rfl, cmp_mul_pos_right (two_zpow_pos e), Nat.strictMono_cast.cmp_map_eq,
      cmp_eq_compare]
    rfl
  · rw [compare_gt_iff_gt.2 h, (cmp_eq_gt_iff _ _).2 (magnitude_lt hn hf hm' h)]
    rfl

theorem compare_of_stores (hu : Stores u a) (hv : Stores v b) : u.compare v = some (cmp a b) := by
  have hpos : ∀ {m : Nat} {e : Int}, 0 < m → (0 : Rat) < m * 2 ^ e := fun hm =>
    mul_pos (Nat.cast_pos.2 hm) (two_zpow_pos _)
  rcases hu.cases with ⟨s, rfl, rfl⟩ | ⟨s, m, e, hm, rfl, rfl, hlt, hexp, hform⟩ <;>
    rcases hv.cases with ⟨t, rfl, rfl⟩ | ⟨t, n, f, hn, rfl, rfl, hlt', hexp', hform'⟩
  · exact congrArg some (cmp_self_eq_eq _).symm
  · cases t with
    | positive => exact congrArg some ((cmp_eq_lt_iff _ _).2 (hpos hn)).symm
    | negative => exact congrArg some ((cmp_eq_gt_iff _ _).2 (neg_neg_of_pos (hpos hn))).symm
  · cases s with
    | positive => exact congrArg some ((cmp_eq_gt_iff _ _).2 (hpos hm)).symm
    | negative => exact congrArg some ((cmp_eq_lt_iff _ _).2 (neg_neg_of_pos (hpos hm))).symm
  · have hcmp := cmp_magnitude hlt hexp hform hlt' hexp' hform'
    rcases s with _ | _ <;> rcases t with _ | _
    · change some ((compare e f).then (compare m n)).swap = some (cmp (-_) (-_))
      have hneg : StrictAnti fun q : Rat => -q := fun _ _ h => neg_lt_neg h
      rw [hcmp, cmp_swap]
      exact congrArg some (hneg.cmp_map_eq _ _).symm
    · exact congrArg some ((cmp_eq_lt_iff _ _).2 ((neg_neg_of_pos (hpos hm)).trans (hpos hn))).symm
    · exact congrArg some ((cmp_eq_gt_iff _ _).2 ((neg_neg_of_pos (hpos hn)).trans (hpos hm))).symm
    · exact congrArg some hcmp

theorem lt_iff_of_ofFloat? (hx : ofFloat? x = some a) (hy : ofFloat? y = some b) :
    x < y ↔ a < b := by
  have hcmp := compare_of_stores (stores_unpack hx) (stores_unpack hy)
  change decide ((UnpackedFloat.compare _ _ == some .lt) = true) = true ↔ _
  rw [hcmp]
  simp [cmp_eq_lt_iff]

theorem isNaN_of_ofFloat? (hx : ofFloat? x = some a) : x.isNaN = false := by
  change x.toModel.unpack.isNaN = false
  rcases (stores_unpack hx).cases with ⟨s, h, -⟩ | ⟨s, m, e, hm, h, -⟩ <;> rw [h] <;> rfl

theorem beq_zero_iff (hx : ofFloat? x = some a) : (x == 0.0) ↔ a = 0 := by
  have hzero : ofFloat? 0.0 = some 0 := by decide +kernel
  have hcmp := compare_of_stores (stores_unpack hx) (stores_unpack hzero)
  change (UnpackedFloat.compare _ _ == some .eq) = true ↔ _
  rw [hcmp]
  simp [cmp_eq_eq_iff]

end Jumpcut.Exact
