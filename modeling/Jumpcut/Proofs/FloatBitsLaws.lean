import Jumpcut.Proofs.NearestLaws
import Mathlib

namespace Jumpcut.Exact

open Float.Model Float.Model.UnpackedFloat Format UnpackedFloat

theorem scaled_eq (m e : Int) : scaled m e = m * 2 ^ e := by
  rw [scaled]
  split
  · next h =>
    obtain ⟨n, rfl⟩ := Int.eq_ofNat_of_zero_le h
    simp [Rat.mkRat_one]
  · next h =>
    obtain ⟨n, hn⟩ := Int.eq_ofNat_of_zero_le (show 0 ≤ -e by omega)
    obtain rfl : e = -n := by omega
    simp [Rat.mkRat_eq_div, div_eq_mul_inv]

def signed : Sign → Rat → Rat
  | .negative, q => -q
  | .positive, q => q

def value? : UnpackedFloat → Option Rat
  | .zero _ => some 0
  | .finite s m e _ => some (signed s (m * 2 ^ e))
  | _ => none

theorem abs_signed (s : Sign) (m : Nat) (e : Int) : |signed s (m * 2 ^ e)| = m * 2 ^ e := by
  have : (0 : Rat) ≤ m * 2 ^ e := by positivity
  cases s <;> simp [signed, abs_of_nonneg this]

theorem toNat_unpackMantissa (b : BitVec 64) :
    (@unpackMantissa binary64 b).toNat = b.toNat % 2 ^ 52 := by
  simp [unpackMantissa]

theorem toNat_unpackExponent (b : BitVec 64) :
    (@unpackExponent binary64 b).toNat = b.toNat / 2 ^ 52 % 2 ^ 11 := by
  simp [unpackExponent, Nat.shiftRight_eq_div_pow]

theorem toNat_unpackSign (b : BitVec 64) : (@unpackSign binary64 b).toNat = b.toNat / 2 ^ 63 := by
  have hlt : b.toNat < 2 ^ 64 := b.isLt
  simp [unpackSign, Nat.shiftRight_eq_div_pow]
  omega

theorem unpackMantissa_eq_zero_iff (b : BitVec 64) :
    @unpackMantissa binary64 b = 0#52 ↔ b.toNat % 2 ^ 52 = 0 := by
  rw [← BitVec.toNat_inj, toNat_unpackMantissa]
  rfl

variable {n m d : Nat} {u : UnpackedFloat} {q : Rat} {x : Float}

theorem unpackExponent_eq_iff (b : BitVec 64) (hn : n < 2 ^ 11) :
    @unpackExponent binary64 b = BitVec.ofNat 11 n ↔
      b.toNat / 2 ^ 52 % 2 ^ 11 = n := by
  rw [← BitVec.toNat_inj, toNat_unpackExponent, BitVec.toNat_ofNat, Nat.mod_eq_of_lt hn]

theorem ofBitVec_unpackSign (b : BitVec 64) :
    Sign.ofBitVec (@unpackSign binary64 b) =
      if b.toNat / 2 ^ 63 == 1 then .negative else .positive := by
  have hlt : b.toNat < 2 ^ 64 := b.isLt
  have hbit : b.toNat / 2 ^ 63 = 0 ∨ b.toNat / 2 ^ 63 = 1 := by omega
  have hsign := toNat_unpackSign b
  rcases hbit with h | h
  · rw [h] at hsign ⊢
    rw [BitVec.eq_of_toNat_eq (y := 0#1) hsign]
    rfl
  · rw [h] at hsign ⊢
    rw [BitVec.eq_of_toNat_eq (y := 1#1) hsign]
    rfl

theorem toNat_implicit_append (m : BitVec 52) : (1#1 ++ m).toNat = m.toNat + 2 ^ 52 := by
  rw [BitVec.toNat_append, ← Nat.shiftLeft_add_eq_or_of_lt m.isLt, Nat.add_comm]
  rfl

def classOf : UnpackedFloat → FloatClass
  | .notANumber => .nan
  | .infinity s => .inf (s == .negative)
  | .zero s => .finite (s == .negative) 0 (-1074)
  | .finite s m e _ => .finite (s == .negative) m e

theorem classify_eq_classOf (x : Float) : classify x = classOf x.toModel.unpack := by
  have hbits : x.toBits.toNat = x.toModel.toBits.toBitVec.toNat := rfl
  rw [classify, hbits, Float.Model.unpack, UnpackedFloat.unpack]
  generalize x.toModel.toBits.toBitVec = b
  have hinf : @unpackExponent binary64 b = -1#11 ↔ _ :=
    unpackExponent_eq_iff b (n := 2047) (by norm_num)
  have hzero := unpackExponent_eq_iff b (n := 0) (by norm_num)
  have hfrac := unpackMantissa_eq_zero_iff b
  have hsign : (Sign.ofBitVec (@unpackSign binary64 b) == .negative) =
      (b.toNat / 2 ^ 63 == 1) := by
    rw [ofBitVec_unpackSign]
    split <;> simp_all
  simp only [Nat.pow_eq]
  by_cases h₁ : b.toNat / 2 ^ 52 % 2 ^ 11 = 2047
  · rw [if_pos h₁, if_pos (hinf.2 h₁)]
    by_cases h₂ : b.toNat % 2 ^ 52 = 0
    · rw [if_pos h₂, if_pos (hfrac.2 h₂), classOf, hsign]
    · rw [if_neg h₂, if_neg (mt hfrac.1 h₂), classOf]
  · rw [if_neg h₁, if_neg (mt hinf.1 h₁)]
    by_cases h₂ : b.toNat / 2 ^ 52 % 2 ^ 11 = 0
    · rw [if_pos h₂, if_pos (hzero.2 h₂)]
      by_cases h₃ : b.toNat % 2 ^ 52 = 0
      · rw [dif_pos (hfrac.2 h₃), classOf, hsign, h₃]
      · rw [dif_neg (mt hfrac.1 h₃), classOf, hsign, toNat_unpackMantissa, toNat_unpackExponent, h₂]
        rfl
    · rw [if_neg h₂, if_neg (mt hzero.1 h₂), classOf, hsign, toNat_implicit_append,
        toNat_unpackMantissa, toNat_unpackExponent]
      rfl

theorem ofFloat?_eq_value? (x : Float) : ofFloat? x = value? x.toModel.unpack := by
  rw [ofFloat?, classify_eq_classOf]
  cases x.toModel.unpack with
  | infinity s => rfl
  | notANumber => rfl
  | zero s => cases s <;> simp [classOf, value?, scaled_eq]
  | finite s m e hm => cases s <;> simp [classOf, value?, scaled_eq, signed]

/-- The parts have the form that a number is stored in; only the exponent may be too large. -/
def Canonical : UnpackedFloat → Prop
  | .finite _ m e _ => m < 2 ^ 53 ∧ -1074 ≤ e ∧ (2 ^ 52 ≤ m ∨ e = -1074)
  | _ => True

@[simp] theorem ofBitVec_toBitVec (s : Sign) : Sign.ofBitVec s.toBitVec = s := by cases s <;> rfl

theorem unpack_packedInfinity (s : Sign) :
    UnpackedFloat.unpack binary64 (packedInfinity binary64 s) = .infinity s := by
  simp [UnpackedFloat.unpack, packedInfinity]

theorem unpack_normal (s : Sign) (hlo : 2 ^ 52 ≤ m) (hhi : m < 2 ^ 53) (hn : 0 < n)
    (hn' : n < 2047) :
    unpack binary64
        (packComponents binary64 s (BitVec.ofNat 11 n) (BitVec.ofNat 52 m)) =
      .finite s m (n - 1075) (by omega) := by
  have hmant : (1#1 ++ BitVec.ofNat 52 m).toNat = m := by
    rw [toNat_implicit_append, BitVec.toNat_ofNat]
    omega
  have hexp : (BitVec.ofNat 11 n).toNat = n := by
    rw [BitVec.toNat_ofNat]
    omega
  have hinf : BitVec.ofNat 11 n ≠ -1#11 := by
    rw [Ne, ← BitVec.toNat_inj, hexp]
    change ¬ n = 2047
    omega
  have hzero : BitVec.ofNat 11 n ≠ 0#11 := by
    rw [Ne, ← BitVec.toNat_inj, hexp]
    change ¬ n = 0
    omega
  simp only [UnpackedFloat.unpack, unpackExponent_packComponents, unpackMantissa_packComponents,
    unpackSign_packComponents, hinf, hzero, if_false, ofBitVec_toBitVec, hmant, hexp]
  rfl

theorem unpack_subnormal (s : Sign) (hpos : 0 < m) (hm : m < 2 ^ 52) :
    unpack binary64
        (packComponents binary64 s 0#11 (BitVec.ofNat 52 m)) =
      .finite s m (-1074) hpos := by
  have hmant : (BitVec.ofNat 52 m).toNat = m := by
    rw [BitVec.toNat_ofNat]
    omega
  have hzero : BitVec.ofNat 52 m ≠ 0#52 := by
    rw [Ne, ← BitVec.toNat_inj, hmant]
    change ¬ m = 0
    omega
  have hexp : (0#11 : BitVec 11) ≠ -1#11 := by decide
  simp only [UnpackedFloat.unpack, unpackExponent_packComponents, unpackMantissa_packComponents,
    unpackSign_packComponents, hexp, hzero, if_false, if_true, dif_neg, not_false_iff,
    ofBitVec_toBitVec, hmant]
  rfl

theorem unpack_pack_of_canonical {s : Sign} {e : Int} {hm : 0 < m}
    (hc : Canonical (.finite s m e hm)) :
    unpack binary64 (pack binary64 (.finite s m e hm)) =
      if e ≤ 971 then .finite s m e hm else .infinity s := by
  obtain ⟨hlt, hexp, hform⟩ := hc
  obtain ⟨n, hn⟩ := Int.eq_ofNat_of_zero_le (show 0 ≤ e + 1075 by omega)
  obtain rfl : e = n - 1075 := by omega
  have hfield : ((n : Int) - 1075 + 1023 + 52).toNat = n := by omega
  rw [UnpackedFloat.pack]
  change unpack binary64
    (if 2 ^ 11 ≤ ((n : Int) - 1075 + 1023 + 52).toNat + 1 then _ else
      if m.log2 + 1 = 53 then packComponents binary64 s
        (BitVec.ofNat 11 ((n : Int) - 1075 + 1023 + 52).toNat) _ else _) = _
  rw [hfield]
  by_cases hlarge : 2 ^ 11 ≤ n + 1
  · rw [if_pos hlarge, if_neg (by omega)]
    exact unpack_packedInfinity s
  have hfits : (n : Int) - 1075 ≤ 971 := by omega
  rw [if_neg hlarge, if_pos hfits]
  by_cases hlog : m.log2 + 1 = 53
  · have hfull : 2 ^ 52 ≤ m := by
      have := Nat.log2_self_le hm.ne'
      rwa [Nat.succ.inj hlog] at this
    rw [if_pos hlog]
    exact unpack_normal s hfull hlt (by omega) (by omega)
  · have hshort : m < 2 ^ 52 := by
      have := (Nat.log2_lt hm.ne').2 hlt
      exact (Nat.log2_lt hm.ne').1 (by omega)
    rw [if_neg hlog]
    obtain rfl : n = 1 := by omega
    exact unpack_subnormal s hm hshort

theorem canonical_unpack (x : Float) : Canonical x.toModel.unpack := by
  have hclass := classify_eq_classOf x
  cases hu : x.toModel.unpack with
  | infinity s | notANumber | zero s => trivial
  | finite s m e hm =>
    rw [hu, classOf, classify] at hclass
    have hfrac := Nat.mod_lt x.toBits.toNat (show 0 < 2 ^ 52 by norm_num)
    simp only [Nat.pow_eq] at hclass
    split_ifs at hclass with h₁ h₂ h₃
    · simp only [FloatClass.finite.injEq] at hclass
      obtain ⟨-, rfl, rfl⟩ := hclass
      exact ⟨by omega, le_rfl, .inr rfl⟩
    · simp only [FloatClass.finite.injEq] at hclass
      obtain ⟨-, rfl, rfl⟩ := hclass
      exact ⟨by omega, by omega, .inl (by omega)⟩

structure Stores (u : UnpackedFloat) (q : Rat) : Prop where
  canonical : Canonical u
  value_eq : value? u = some q

theorem stores_zero (s : Sign) : Stores (.zero s) 0 := ⟨trivial, rfl⟩

theorem Stores.cases (h : Stores u q) :
    (∃ s, u = .zero s ∧ q = 0) ∨
      ∃ s m e hm, u = .finite s m e hm ∧ q = signed s (m * 2 ^ e) ∧
        m < 2 ^ 53 ∧ -1074 ≤ e ∧ (2 ^ 52 ≤ m ∨ e = -1074) := by
  obtain ⟨hc, hv⟩ := h
  cases u with
  | infinity s | notANumber => cases hv
  | zero s =>
    cases hv
    exact .inl ⟨s, rfl, rfl⟩
  | finite s m e hm =>
    cases hv
    exact .inr ⟨s, m, e, hm, rfl, rfl, hc⟩

theorem Stores.onGrid (h : Stores u q) : OnGrid q := by
  rcases h.cases with ⟨s, -, rfl⟩ | ⟨s, m, e, hm, -, rfl, hlt, hexp, -⟩
  · exact onGrid_zero
  · have hgrid : OnGrid (m * 2 ^ e) := ⟨m, e, by rw [Nat.abs_cast]; exact_mod_cast hlt, hexp, rfl⟩
    cases s with
    | positive => exact hgrid
    | negative => exact hgrid.neg

theorem Stores.ofFloat? (h : Stores u q) : ofFloat? ⟨pack u⟩ = inRange? q := by
  rw [ofFloat?_eq_value?]
  change value? (unpack binary64 (pack binary64 u)) = _
  rcases h.cases with ⟨s, rfl, rfl⟩ | ⟨s, m, e, hm, rfl, rfl, hlt, hexp, hform⟩
  · have hzero : |(0 : Rat)| < limit := by
      rw [abs_zero, limit]
      positivity
    rw [UnpackedFloat.pack, unpack_packedZero, inRange?, if_pos hzero]
    rfl
  · rw [unpack_pack_of_canonical h.canonical, inRange?, abs_signed]
    by_cases hle : e ≤ 971
    · rw [if_pos hle, if_pos (lt_limit (by exact_mod_cast hlt) hle)]
      rfl
    · have hfull : 2 ^ 52 ≤ m := hform.resolve_right (by omega)
      have hlarge : limit ≤ (m : Rat) * 2 ^ e := limit_le (by exact_mod_cast hfull) (by omega)
      rw [if_neg hle, if_neg hlarge.not_gt]
      rfl

theorem Stores.classify_inf (h : Stores u q) (hq : limit ≤ |q|) :
    classify ⟨pack u⟩ = .inf (decide (q < 0)) := by
  rw [classify_eq_classOf]
  change classOf (unpack binary64 (pack binary64 u)) = _
  rcases h.cases with ⟨s, rfl, rfl⟩ | ⟨s, m, e, hm, rfl, rfl, hlt, -⟩
  · rw [abs_zero] at hq
    exact absurd hq (not_le.2 (by rw [limit]; positivity))
  · have hpos : (0 : Rat) < m * 2 ^ e := mul_pos (Nat.cast_pos.2 hm) (two_zpow_pos e)
    have hlarge : ¬ e ≤ 971 := by
      intro he
      rw [abs_signed] at hq
      exact hq.not_gt (lt_limit (by exact_mod_cast hlt) he)
    rw [unpack_pack_of_canonical h.canonical, if_neg hlarge]
    cases s with
    | negative => simp [classOf, signed, hpos]
    | positive =>
      rw [signed, decide_eq_false hpos.not_gt]
      rfl

theorem stores_unpack (h : ofFloat? x = some q) : Stores x.toModel.unpack q :=
  ⟨canonical_unpack x, by rw [← ofFloat?_eq_value?, h]⟩

theorem onGrid_of_ofFloat? (h : ofFloat? x = some q) : OnGrid q :=
  (stores_unpack h).onGrid

def bitsValue (b : Nat) : Rat :=
  if b < 2 ^ 52 then b * 2 ^ (-1074 : Int)
  else (b % 2 ^ 52 + 2 ^ 52 : Nat) * 2 ^ ((b / 2 ^ 52 : Nat) - 1075 : Int)

theorem toNat_toBits_ofBits (hlt : n < 2 ^ 64) (hfield : n / 2 ^ 52 % 2 ^ 11 ≠ 2047) :
    (Float.ofBits (UInt64.ofNat n)).toBits.toNat = n := by
  have hn : (UInt64.ofNat n).toBitVec.toNat = n := Nat.mod_eq_of_lt hlt
  change (pack binary64 (unpack binary64
    (UInt64.ofNat n).toBitVec)).toNat = n
  have hnan : ¬ @isNaNBits binary64 (UInt64.ofNat n).toBitVec := by
    have hexp := unpackExponent_eq_iff (UInt64.ofNat n).toBitVec (n := 2047) (by norm_num)
    rw [hn] at hexp
    simp only [isNaNBits, decide_eq_true_eq, not_and]
    intro h
    exact absurd (hexp.1 h) hfield
  rw [pack_unpack, if_neg hnan, hn]

theorem ofFloat?_ofBits {b : Nat} (hb : b < 2047 * 2 ^ 52) (neg : Bool) :
    ofFloat? (Float.ofBits (UInt64.ofNat (if neg then b + 2 ^ 63 else b))) =
      some (if neg then -bitsValue b else bitsValue b) := by
  generalize hn : (if neg then b + 2 ^ 63 else b) = n
  have hlt : n < 2 ^ 64 := by split at hn <;> omega
  have hneg : (n / 2 ^ 63 == 1) = neg := by
    cases neg with
    | true =>
      rw [if_pos rfl] at hn
      rw [beq_iff_eq]
      omega
    | false =>
      rw [if_neg (by decide)] at hn
      rw [beq_eq_false_iff_ne]
      omega
  have hfield : n / 2 ^ 52 % 2 ^ 11 = b / 2 ^ 52 := by split at hn <;> omega
  have hfrac : n % 2 ^ 52 = b % 2 ^ 52 := by split at hn <;> omega
  rw [ofFloat?, classify, toNat_toBits_ofBits hlt (by omega)]
  simp only [Nat.pow_eq, hneg, hfield, hfrac]
  rw [if_neg (show b / 2 ^ 52 ≠ 2047 by omega), bitsValue]
  by_cases hsmall : b < 2 ^ 52
  · rw [if_pos (by omega), if_pos hsmall, Nat.mod_eq_of_lt hsmall]
    cases neg <;> simp [scaled_eq]
  · rw [if_neg (by omega), if_neg hsmall]
    cases neg <;>
      simp only [scaled_eq, if_true, if_false, Bool.false_eq_true, Int.cast_neg, Int.cast_natCast,
        neg_mul]

theorem above_iff (hd : 0 < d) (e : Int) :
    (if 0 ≤ e then decide (2 ^ 53 * (d * 2 ^ e.toNat) ≤ n)
      else decide (2 ^ 53 * d ≤ n * 2 ^ (-e).toNat)) = true ↔
      (2 : Rat) ^ 53 * 2 ^ e ≤ n / d := by
  have hd' : (0 : Rat) < d := by exact_mod_cast hd
  rw [le_div_iff₀ hd']
  split
  · next h =>
    obtain ⟨k, rfl⟩ := Int.eq_ofNat_of_zero_le h
    rw [decide_eq_true_eq, zpow_natCast, Int.toNat_natCast, mul_assoc, mul_comm (2 ^ k) (d : Rat)]
    exact_mod_cast Iff.rfl
  · next h =>
    obtain ⟨k, hk⟩ := Int.eq_ofNat_of_zero_le (show 0 ≤ -e by omega)
    obtain rfl : e = -k := by omega
    rw [decide_eq_true_eq, zpow_neg, zpow_natCast, neg_neg, Int.toNat_natCast, mul_right_comm,
      ← div_eq_mul_inv, div_le_iff₀ (by positivity)]
    exact_mod_cast Iff.rfl

theorem gridExp_ratio (hn : 0 < n) (hd : 0 < d) :
    gridExp (n / d) = max (if (2 : Rat) ^ 53 * 2 ^ ((n.log2 : Int) - d.log2 - 53) ≤ n / d
      then (n.log2 : Int) - d.log2 - 53 + 1 else n.log2 - d.log2 - 53) (-1074) := by
  have hd' : (0 : Rat) < d := by exact_mod_cast hd
  have hnlo : (2 : Rat) ^ n.log2 ≤ n := by exact_mod_cast Nat.log2_self_le hn.ne'
  have hnhi : (n : Rat) < 2 ^ (n.log2 + 1) := by exact_mod_cast Nat.lt_log2_self
  have hdlo : (2 : Rat) ^ d.log2 ≤ d := by exact_mod_cast Nat.log2_self_le hd.ne'
  have hdhi : (d : Rat) < 2 ^ (d.log2 + 1) := by exact_mod_cast Nat.lt_log2_self
  have hpow : (2 : Rat) ^ 53 * 2 ^ ((n.log2 : Int) - d.log2 - 53) =
      2 ^ ((n.log2 : Int) - d.log2) := by
    rw [two_pow_mul_zpow]
    congr 1
    push_cast
    ring
  have hupper : (n : Rat) / d < 2 ^ ((n.log2 : Int) - d.log2 + 1) := by
    rw [div_lt_iff₀ hd', sub_add_eq_add_sub, zpow_sub₀ (by norm_num), zpow_natCast]
    calc (n : Rat) < 2 ^ (n.log2 + 1) := hnhi
      _ = 2 ^ ((n.log2 : Int) + 1) / 2 ^ d.log2 * 2 ^ d.log2 := by
        rw [div_mul_cancel₀ _ (by positivity)]
        exact_mod_cast rfl
      _ ≤ 2 ^ ((n.log2 : Int) + 1) / 2 ^ d.log2 * d := by gcongr
  have hlower : (2 : Rat) ^ ((n.log2 : Int) - d.log2 - 1) ≤ n / d := by
    rw [le_div_iff₀ hd', sub_sub, zpow_sub₀ (by norm_num), zpow_natCast]
    calc (2 : Rat) ^ n.log2 / 2 ^ ((d.log2 : Int) + 1) * d
        ≤ 2 ^ n.log2 / 2 ^ ((d.log2 : Int) + 1) * 2 ^ (d.log2 + 1) := by gcongr
      _ = 2 ^ n.log2 := by
        have : (2 : Rat) ^ ((d.log2 : Int) + 1) = 2 ^ (d.log2 + 1) := by exact_mod_cast rfl
        rw [this, div_mul_cancel₀ _ (by positivity)]
      _ ≤ n := hnlo
  rw [gridExp, hpow]
  congr 1
  split
  · next h =>
    rw [log_eq_of_bounds h hupper]
    ring
  · next h =>
    rw [log_eq_of_bounds hlower (by rw [sub_add_cancel]; exact not_le.1 h)]
    ring

theorem round_ratio (n : Nat) (hd : 0 < d) (e : Int) :
    (if 0 ≤ e then roundDiv n (d * 2 ^ e.toNat) else roundDiv (n * 2 ^ (-e).toNat : Nat) d) =
      round (n / d / 2 ^ e) := by
  split
  · next h =>
    obtain ⟨k, rfl⟩ := Int.eq_ofNat_of_zero_le h
    rw [roundDiv_eq_round _ (by positivity), div_div, zpow_natCast, Int.toNat_natCast]
    push_cast
    rfl
  · next h =>
    obtain ⟨k, hk⟩ := Int.eq_ofNat_of_zero_le (show 0 ≤ -e by omega)
    obtain rfl : e = -k := by omega
    rw [roundDiv_eq_round _ hd, zpow_neg, zpow_natCast, neg_neg, Int.toNat_natCast, div_inv_eq_mul,
      div_mul_eq_mul_div]
    push_cast
    rfl

theorem bitsOfRatio_eq (hn : 0 < n) (hd : 0 < d) :
    bitsOfRatio n d =
      let m := (round (n / d / 2 ^ gridExp (n / d))).toNat
      let b := (gridExp (n / d) + 1075).toNat * 2 ^ 52 + (m - 2 ^ 52)
      if m < 2 ^ 52 then some m else if b < 2047 * 2 ^ 52 then some b else none := by
  rw [bitsOfRatio, if_neg hn.ne', gridExp_ratio hn hd]
  simp only [Nat.pow_eq, above_iff hd, round_ratio n hd]

theorem bitsValue_normal {g : Int} (hlo : 2 ^ 52 ≤ m) (hhi : m ≤ 2 ^ 53) (hg : -1074 ≤ g) :
    bitsValue ((g + 1075).toNat * 2 ^ 52 + (m - 2 ^ 52)) = m * 2 ^ g := by
  obtain ⟨n, hn⟩ := Int.eq_ofNat_of_zero_le (show 0 ≤ g + 1075 by omega)
  obtain rfl : g = n - 1075 := by omega
  rw [hn, Int.toNat_natCast, bitsValue, if_neg (by omega)]
  rcases hhi.lt_or_eq with hlt | rfl
  · have hmod : (n * 2 ^ 52 + (m - 2 ^ 52)) % 2 ^ 52 + 2 ^ 52 = m := by omega
    have hdiv : (n * 2 ^ 52 + (m - 2 ^ 52)) / 2 ^ 52 = n := by omega
    rw [hmod, hdiv]
  · have hmod : (n * 2 ^ 52 + (2 ^ 53 - 2 ^ 52)) % 2 ^ 52 + 2 ^ 52 = 2 ^ 52 := by omega
    have hdiv : (n * 2 ^ 52 + (2 ^ 53 - 2 ^ 52)) / 2 ^ 52 = n + 1 := by omega
    rw [hmod, hdiv]
    have hexp : ((n + 1 : Nat) : Int) - 1075 = n - 1075 + 1 := by
      push_cast
      ring
    rw [hexp, zpow_add_one₀ (by norm_num)]
    push_cast
    ring

theorem lt_limit_iff {g : Int} (hlo : 2 ^ 52 ≤ m) (hhi : m ≤ 2 ^ 53) (hg : -1074 ≤ g) :
    (g + 1075).toNat * 2 ^ 52 + (m - 2 ^ 52) < 2047 * 2 ^ 52 ↔ (m : Rat) * 2 ^ g < limit := by
  rcases hhi.lt_or_eq with hlt | rfl
  · rcases le_or_gt g 971 with h | h
    · exact iff_of_true (by omega) (lt_limit (by exact_mod_cast hlt) h)
    · exact iff_of_false (by omega) (limit_le (by exact_mod_cast hlo) (by omega)).not_gt
  · rw [Nat.cast_pow, Nat.cast_ofNat, limit, mul_lt_mul_iff_right₀ (by positivity),
      zpow_lt_zpow_iff_right₀ (by norm_num)]
    omega

theorem bitsOfRatio_spec (n : Nat) (hd : 0 < d) :
    (bitsOfRatio n d = none ∧ limit ≤ nearest (n / d)) ∨
      ∃ b, bitsOfRatio n d = some b ∧ b < 2047 * 2 ^ 52 ∧ bitsValue b = nearest (n / d) ∧
        nearest (n / d) < limit := by
  rcases Nat.eq_zero_or_pos n with rfl | hn
  · exact .inr ⟨0, rfl, by norm_num, by simp [bitsValue], by simp [limit]⟩
  rw [bitsOfRatio_eq hn hd]
  have hpos : (0 : Rat) < n / d := by positivity
  generalize (n : Rat) / d = q at *
  obtain ⟨m, hm⟩ := Int.eq_ofNat_of_zero_le (show 0 ≤ round (q / 2 ^ gridExp q) from
    le_round_of_le (by push_cast; positivity))
  have hnearest : nearest q = m * 2 ^ gridExp q := by rw [nearest, hm, Int.cast_natCast]
  have hupper : m ≤ 2 ^ 53 := by
    have := abs_le.1 (abs_round_grid_le q)
    rw [hm] at this
    exact_mod_cast this.2
  rw [hm, Int.toNat_natCast, hnearest]
  have hexp := le_gridExp q
  rcases lt_or_ge m (2 ^ 52) with hsmall | hfull
  · have hgrid : gridExp q = -1074 := by
      rcases hexp.lt_or_eq with hlt | heq
      · have := le_round_grid hpos hlt
        rw [hm] at this
        omega
      · exact heq.symm
    have hlimit : (m : Rat) * 2 ^ gridExp q < limit :=
      lt_limit (by exact_mod_cast hsmall.trans (by norm_num)) (by omega)
    exact .inr ⟨m, if_pos hsmall, by omega, by rw [bitsValue, if_pos hsmall, hgrid], hlimit⟩
  · have hlimit := lt_limit_iff hfull hupper hexp
    simp only [hfull.not_gt, if_false]
    split
    · next h => exact .inr ⟨_, rfl, h, bitsValue_normal hfull hupper hexp, hlimit.1 h⟩
    · next h => exact .inl ⟨rfl, not_lt.1 (mt hlimit.2 h)⟩

/-- Turning a rational into a binary64 number rounds to the nearest one, and fails if that is beyond
the range. -/
theorem toFloat?_spec (q : Rat) : (toFloat? q).map ofFloat? = (inRange? (nearest q)).map some := by
  have habs : ((q.num.natAbs : Nat) : Rat) / q.den = |q| := by
    rw [Nat.cast_natAbs, Int.cast_abs]
    conv_rhs => rw [← Rat.num_div_den q]
    rw [abs_div, Nat.abs_cast]
  have hspec := bitsOfRatio_spec q.num.natAbs q.den_pos
  rw [habs, ← abs_nearest] at hspec
  rw [toFloat?, inRange?]
  rcases hspec with ⟨hnone, hlarge⟩ | ⟨b, hsome, hb, hvalue, hsmall⟩
  · rw [hnone, if_neg hlarge.not_gt]
    rfl
  · have hfloat := ofFloat?_ofBits hb (decide (q.num < 0))
    simp only [decide_eq_true_eq] at hfloat
    rw [hsome, if_pos hsmall]
    change some _ = some _
    simp only [Nat.pow_eq]
    rw [hfloat, hvalue, abs_nearest]
    congr 2
    by_cases hneg : q.num < 0
    · rw [if_pos hneg, abs_of_neg (Rat.num_neg.1 hneg), nearest_neg, neg_neg]
    · rw [if_neg hneg, abs_of_nonneg (Rat.num_nonneg.1 (not_lt.1 hneg))]

theorem ofFloat?_of_toFloat? (h : toFloat? q = some x) : ofFloat? x = some (nearest q) := by
  have hspec := toFloat?_spec q
  rw [h, inRange?] at hspec
  split at hspec
  · exact Option.some.inj hspec
  · cases hspec

end Jumpcut.Exact
