import Jumpcut.Proofs.PlaceLaws
import Jumpcut.Proofs.ShotcutLaws
import Jumpcut.Proofs.TimecodeLaws

/-!
When the entries of a Shotcut document begin and end. Ticks become seconds by two divisions, which
are rounded unless the speed is a fraction (`Shotcut.seconds`). Main statement: which entries begin
before zero, and which do not end before they begin.
-/
namespace Jumpcut

open Outcome Number Chunk

namespace Exact

theorem div_le_nearest_div {n k : Int} {tb : Rat} (htb : 2 ^ (-1022 : Int) ≤ tb)
    (hlarge : nearest tb ≤ largest) (hn : 0 ≤ n) (hnk : n < k) (hk : k ≤ 2 ^ 50) :
    n / tb ≤ nearest (k / nearest tb) := by
  have hpos : 0 < tb := (two_zpow_pos _).trans_le htb
  have hnear := abs_le.1 (abs_nearest_sub_le (abs_of_pos hpos).le htb)
  have hround : 0 < nearest tb := by linarith
  have hn' : (0 : Rat) ≤ n := by exact_mod_cast hn
  have hnk' : (n + 1 : Rat) ≤ k := by exact_mod_cast hnk
  have hk' : (k : Rat) ≤ 2 ^ 50 := by exact_mod_cast hk
  have htick : 2 ^ (-1022 : Int) / 2 ^ 53 ≤ 1 / nearest tb / 2 ^ 3 := by
    have hscaled : nearest tb * 2 ^ (-1022 : Int) ≤ 4 := by
      calc nearest tb * 2 ^ (-1022 : Int) ≤ limit * 2 ^ (-1022 : Int) :=
            mul_le_mul_of_nonneg_right (hlarge.trans largest_lt_limit.le) (two_zpow_pos _).le
        _ = 2 ^ 53 * 2 ^ (971 + -1022 : Int) := by rw [limit, mul_assoc, zpow_add₀ (by norm_num)]
        _ = 4 := by norm_num
    rw [div_div, div_le_div_iff₀ (by norm_num) (by positivity)]
    linarith
  have hfirst : (n / tb : Rat) ≤ n * (1 / nearest tb) * (1 + 1 / 2 ^ 53) := by
    rw [mul_one_div, div_mul_eq_mul_div, div_le_div_iff₀ hpos hround]
    nlinarith
  have hlast : k * (1 / nearest tb) - 1 / nearest tb / 2 ^ 3 ≤ nearest (k / nearest tb) := by
    have hmax : max (k / nearest tb) (2 ^ (-1022 : Int)) / 2 ^ 53 ≤ 1 / nearest tb / 2 ^ 3 := by
      rw [← max_div_div_right (by norm_num), max_le_iff]
      refine ⟨?_, htick⟩
      rw [div_div, div_div, div_le_div_iff₀ (by positivity) (by positivity)]
      nlinarith
    have hnonneg : (0 : Rat) ≤ k / nearest tb := div_nonneg (by linarith) hround.le
    have hnear := (abs_le.1 (abs_nearest_sub_le ((abs_of_nonneg hnonneg).le.trans (le_max_left _ _))
      (le_max_right _ (2 ^ (-1022 : Int))))).1
    rw [mul_one_div]
    linarith
  have hunit : 0 ≤ 1 / nearest tb := by positivity
  have hnext := mul_le_mul_of_nonneg_right hnk' hunit
  have hlost := mul_le_mul_of_nonneg_right (show (n : Rat) ≤ 2 ^ 50 by linarith) hunit
  linarith

end Exact

namespace Number

open Exact

/-- What becomes of the result of a division by a number of this kind: only fractions keep it. -/
def rounding : Number → Rat → Rat
  | .frac _, q => q
  | _, q => nearest q

theorem rounding_mono (s : Number) : Monotone s.rounding := by
  intro p q h
  cases s with
  | frac r => exact h
  | int _ | float _ | complex _ _ => exact nearest_mono h

@[simp] theorem rounding_zero (s : Number) : s.rounding 0 = 0 := by
  cases s <;> simp [rounding]

theorem rounding_nonneg (s : Number) {q : Rat} (h : 0 ≤ q) : 0 ≤ s.rounding q := by
  have := s.rounding_mono h
  rwa [rounding_zero] at this

theorem rounding_le_of_le (s : Number) {q b : Rat} (hb : OnGrid b) (h : q ≤ b) :
    s.rounding q ≤ b := by
  cases s with
  | frac r => exact h
  | int _ | float _ | complex _ _ => exact nearest_le_of_le hb h

theorem abs_rounding_sub_le (s : Number) {q : Rat} (h : 2 ^ (-1022 : Int) ≤ q) :
    |s.rounding q - q| ≤ q / 2 ^ 53 := by
  have hpos : 0 < q := (two_zpow_pos _).trans_le h
  cases s with
  | frac r =>
    rw [rounding, sub_self, abs_zero]
    positivity
  | int _ | float _ | complex _ _ => exact abs_nearest_sub_le (abs_of_pos hpos).le h

theorem toRat?_div_int {n : Int} {s x : Number} {q : Rat} (hs : s.toRat? = some q) (hq : 0 < q)
    (hn : |n| < 2 ^ 53) (hrange : |n / q| ≤ largest) (h : div (.int n) s = .ok x) :
    x.toRat? = some (s.rounding (n / q)) ∧ x.rounding = s.rounding ∧ ∀ m, x ≠ .int m := by
  cases s with
  | int m =>
    cases hs
    rw [div, if_neg (by exact_mod_cast hq.ne')] at h
    simp only [bind_eq_ok, pure_eq_ok] at h
    obtain ⟨y, hy, rfl⟩ := h
    exact ⟨ofFloat?_of_nearestFloat hy, rfl, by simp⟩
  | frac r =>
    cases hs
    rw [div, if_neg hq.ne'] at h
    cases h
    exact ⟨rfl, rfl, by simp⟩
  | float y =>
    simp only [div, toFloat, bind_eq_ok] at h
    obtain ⟨a, ha, b, hb, h⟩ := h
    cases hb
    rw [if_neg (by simp [beq_zero_of_ne hs hq.ne'])] at h
    cases h
    refine ⟨?_, rfl, by simp⟩
    rw [toRat?, ofFloat?_div (ofFloat?_of_nearestFloat ha) hs hq.ne',
      nearest_eq_self (onGrid_intCast hn), inRange?_nearest hrange]
    rfl
  | complex re im => cases hs

theorem toRat?_div_frac {x d : Number} {a tb : Rat} (hx : x.toRat? = some a)
    (hint : ∀ n, x ≠ .int n) (htb : 0 < tb) (hrange : |a / x.rounding tb| ≤ largest)
    (h : x.div (.frac tb) = .ok d) :
    d.toRat? = some (x.rounding (a / x.rounding tb)) ∧ ∀ n, d ≠ .int n := by
  cases x with
  | int n => exact absurd rfl (hint n)
  | frac r =>
    cases hx
    rw [div, if_neg htb.ne'] at h
    cases h
    exact ⟨rfl, by simp⟩
  | float y =>
    simp only [div, toFloat, bind_eq_ok] at h
    obtain ⟨u, hu, b, hb, h⟩ := h
    cases hu
    have hvalue := ofFloat?_of_nearestFloat hb
    by_cases hzero : nearest tb = 0
    · rw [if_pos ((beq_zero_iff hvalue).2 hzero)] at h
      cases h
    · rw [if_neg (by simp [beq_zero_of_ne hvalue hzero])] at h
      cases h
      refine ⟨?_, by simp⟩
      rw [toRat?, ofFloat?_div hx hvalue hzero]
      exact inRange?_nearest hrange
  | complex re im => cases hx

theorem nearest_le_largest_of_div {y : Float} {d : Number} {tb : Rat}
    (h : (float y).div (.frac tb) = .ok d) : nearest tb ≤ largest := by
  simp only [div, toFloat, bind_eq_ok] at h
  obtain ⟨-, -, b, hb, -⟩ := h
  exact (le_abs_self _).trans (abs_le_largest (ofFloat?_of_nearestFloat hb))

end Number

namespace Shotcut

open Number Exact TimeFormat Xml

def seconds (tb : Rat) (s : Number) (n : Int) : Rat :=
  s.rounding (s.rounding (n / s.toRat?.getD 0) / s.rounding tb)

structure Bounded (tb : Rat) (s : Number) (n : Int) : Prop where
  ticks : n ≤ 2 ^ 50
  played : n / s.toRat?.getD 0 ≤ (2 ^ 50 : Rat)
  seconds : n / s.toRat?.getD 0 / tb ≤ (2 ^ 50 : Rat)

section

variable {tb q : Rat} {s x : Number} {m n : Int} {code : String}

theorem Bounded.mono (h : Bounded tb s n) (hs : s.toRat? = some q) (hq : 0 < q) (htb : 0 < tb)
    (hmn : m ≤ n) : Bounded tb s m := by
  have hle : (m : Rat) / q ≤ n / q := by gcongr
  obtain ⟨hticks, hplayed, hseconds⟩ := h
  rw [hs, Option.getD_some] at hplayed hseconds
  refine ⟨hmn.trans hticks, ?_, ?_⟩
  · rw [hs, Option.getD_some]
    exact hle.trans hplayed
  · rw [hs, Option.getD_some]
    exact (by gcongr : (m / q / tb : Rat) ≤ n / q / tb).trans hseconds

theorem rounding_div_nonneg (hq : 0 < q) (htb : 0 < tb) (hn : 0 ≤ n) :
    0 ≤ s.rounding (n / q) / s.rounding tb := by
  have hquotient : (0 : Rat) ≤ n / q := div_nonneg (by exact_mod_cast hn) hq.le
  exact div_nonneg (s.rounding_nonneg hquotient) (s.rounding_nonneg htb.le)

@[simp] theorem seconds_zero : seconds tb s 0 = 0 := by
  simp [seconds]

theorem atLeastZero_of_nonneg {a : Rat} (hx : x.toRat? = some a) (ha : 0 ≤ a) :
    atLeastZero x = x := by
  rw [atLeastZero, if_neg]
  rw [lt_zero_iff hx]
  exact ha.not_gt

theorem atLeastZero_of_neg {a : Rat} (hx : x.toRat? = some a) (ha : a < 0) :
    atLeastZero x = .int 0 := by
  rw [atLeastZero, if_pos ((lt_zero_iff hx).2 ha)]

structure Ticks (s : Number) (r : Rat) (x : Number) : Prop where
  value : x.toRat? = some r
  rounding : x.rounding = s.rounding
  notInt : ∀ m, x ≠ .int m
  atLeast : atLeastZero x = x

section

variable (hs : s.toRat? = some q) (hq : 0 < q) (hq' : q ≤ 99999) (htb : 0 < tb) (hn : 0 ≤ n)
  (hbound : Bounded tb s n)

include hs hq htb hn in
theorem seconds_nonneg : 0 ≤ seconds tb s n := by
  rw [seconds, hs, Option.getD_some]
  exact s.rounding_nonneg (rounding_div_nonneg hq htb hn)

include hs hq htb in
theorem seconds_mono (h : m ≤ n) : seconds tb s m ≤ seconds tb s n := by
  rw [seconds, seconds, hs, Option.getD_some]
  apply s.rounding_mono
  refine div_le_div_of_nonneg_right (s.rounding_mono ?_) (s.rounding_nonneg htb.le)
  gcongr

include hs hq hn hbound in
theorem ticks_of_div (hdiv : div (.int n) s = .ok x) : Ticks s (s.rounding (n / q)) x := by
  have hquotient : (0 : Rat) ≤ n / q := div_nonneg (by exact_mod_cast hn) hq.le
  have hplayed := hbound.played
  rw [hs, Option.getD_some] at hplayed
  obtain ⟨hx, hkind, hint⟩ := toRat?_div_int hs hq
    (by rw [abs_of_nonneg hn]; exact hbound.ticks.trans_lt (by norm_num))
    (le_largest (by rw [abs_of_nonneg hquotient]; exact hplayed.trans (by norm_num))) hdiv
  exact ⟨hx, hkind, hint, atLeastZero_of_nonneg hx (s.rounding_nonneg hquotient)⟩

include hs hq hq' htb hn hbound

theorem abs_rounding_div_sub_le :
    |s.rounding (n / q) / s.rounding tb - n / q / tb| ≤ n / q / tb / 2 ^ 51 := by
  obtain ⟨-, -, hseconds⟩ := hbound
  rw [hs, Option.getD_some, div_le_iff₀ htb] at hseconds
  rcases hn.eq_or_lt with rfl | hpos
  · simp
  · -- A speed has a largest value, so one tick or more is far above the least binary64 number, and
    -- so is the base, since the seconds are bounded.
    have hticks : 1 / 99999 ≤ (n / q : Rat) := by
      have : (1 : Rat) ≤ n := by exact_mod_cast hpos
      rw [div_le_div_iff₀ (by norm_num) hq]
      linarith
    have hsmall : (2 : Rat) ^ (-1022 : Int) ≤ 1 / 99999 / 2 ^ 50 :=
      (zpow_le_zpow_right₀ (by norm_num) (by norm_num : (-1022 : Int) ≤ -67)).trans (by norm_num)
    have hupper := s.abs_rounding_sub_le (show 2 ^ (-1022 : Int) ≤ (n / q : Rat) by linarith)
    have hlower := s.abs_rounding_sub_le (show 2 ^ (-1022 : Int) ≤ tb by linarith)
    have hhalf : tb / 2 ≤ s.rounding tb := by linarith [(abs_le.1 hlower).1]
    have hround : 0 < s.rounding tb := by linarith
    have hquot : 0 < (n / q : Rat) := by linarith
    generalize s.rounding (n / q) = a at *
    generalize s.rounding tb = b at *
    generalize (n / q : Rat) = r at *
    have hcross : |a * tb - b * r| ≤ r * tb / 2 ^ 52 := by
      calc |a * tb - b * r| = |(a - r) * tb - (b - tb) * r| := by ring_nf
        _ ≤ |(a - r) * tb| + |(b - tb) * r| := abs_sub _ _
        _ = |a - r| * tb + |b - tb| * r := by
          rw [abs_mul, abs_mul, abs_of_pos htb, abs_of_pos hquot]
        _ ≤ r / 2 ^ 53 * tb + tb / 2 ^ 53 * r := by gcongr
        _ = r * tb / 2 ^ 52 := by ring
    rw [div_sub_div _ _ hround.ne' htb.ne', abs_div, abs_of_pos (mul_pos hround htb), div_div,
      div_le_div_iff₀ (by positivity) (by positivity)]
    calc |a * tb - b * r| * (tb * 2 ^ 51) ≤ r * tb / 2 ^ 52 * (tb * 2 ^ 51) := by gcongr
      _ = r * (tb / 2 * tb) := by ring
      _ ≤ r * (b * tb) := by gcongr

theorem rounding_div_le : s.rounding (n / q) / s.rounding tb ≤ 2 ^ 52 := by
  have hnear := (abs_le.1 (abs_rounding_div_sub_le hs hq hq' htb hn hbound)).2
  obtain ⟨-, -, hseconds⟩ := hbound
  rw [hs, Option.getD_some] at hseconds
  linarith

theorem abs_seconds_sub_le (htick : q * tb ≤ 500) :
    |seconds tb s n - n / q / tb| ≤ n / q / tb / 2 ^ 50 := by
  rcases hn.eq_or_lt with rfl | hpos
  · simp
  · have hlong : 1 / 500 ≤ (n / q / tb : Rat) := by
      have : (1 : Rat) ≤ n := by exact_mod_cast hpos
      rw [div_div, div_le_div_iff₀ (by norm_num) (by positivity)]
      linarith
    have hquotient := abs_le.1 (abs_rounding_div_sub_le hs hq hq' htb hn hbound)
    have hsmall : (2 : Rat) ^ (-1022 : Int) ≤ 1 / 1024 :=
      (zpow_le_zpow_right₀ (by norm_num) (by norm_num : (-1022 : Int) ≤ -10)).trans (by norm_num)
    have hround := abs_le.1 (s.abs_rounding_sub_le
      (show 2 ^ (-1022 : Int) ≤ s.rounding (n / q) / s.rounding tb by linarith))
    rw [seconds, hs, Option.getD_some, abs_le]
    constructor <;> linarith

theorem millis?_time (hdiv : div (.int n) s = .ok x)
    (htime : time (atLeastZero x) tb = .ok code) :
    millis? code = some (millis (seconds tb s n)) := by
  have hquotient := rounding_div_le hs hq hq' htb hn hbound
  have hpos : 0 ≤ s.rounding (n / q) / s.rounding tb := rounding_div_nonneg hq htb hn
  have hticks := ticks_of_div hs hq hn hbound hdiv
  rw [hticks.atLeast, time, bind_eq_ok] at htime
  obtain ⟨d, hd, htext⟩ := htime
  obtain ⟨hvalue, hint⟩ := toRat?_div_frac hticks.value hticks.notInt htb (le_largest (by
    rw [hticks.rounding, abs_of_nonneg hpos]
    exact hquotient.trans (by norm_num))) hd
  rw [hticks.rounding] at hvalue
  have hgrid : OnGrid (2 ^ 52) := ⟨1, 52, by norm_num, by norm_num, by norm_num⟩
  obtain ⟨code', htext', hcode⟩ := text_standard hvalue hint (s.rounding_nonneg hpos)
    ((s.rounding_le_of_le hgrid hquotient).trans_lt (by norm_num))
  rw [htext, Except.ok.injEq] at htext'
  rw [htext', hcode, seconds, hs, Option.getD_some]

end

theorem div_le_seconds {k : Int} {d : Number} (hs : s.toRat? = some 1) (htb : 0 < tb) (hn : 0 ≤ n)
    (hnk : n < k) (hbound : Bounded tb s k) (hdiv : div (.int k) s = .ok x)
    (hd : x.div (.frac tb) = .ok d) : (n / tb : Rat) ≤ seconds tb s k := by
  have hle : (n / tb : Rat) ≤ k / tb := by gcongr
  have hk : (1 : Rat) ≤ k := by exact_mod_cast (by omega : 1 ≤ k)
  have hseconds := hbound.seconds
  rw [hs, Option.getD_some, div_one, div_le_iff₀ htb] at hseconds
  have hbase : (2 : Rat) ^ (-1022 : Int) ≤ tb :=
    (zpow_le_zpow_right₀ (by norm_num) (by norm_num : (-1022 : Int) ≤ -50)).trans (by
      rw [zpow_neg, inv_le_iff_one_le_mul₀ (by positivity)]
      exact_mod_cast (by linarith : (1 : Rat) ≤ tb * 2 ^ 50))
  have hself : nearest (k : Rat) = k := nearest_eq_self (onGrid_intCast (by
    rw [abs_of_nonneg (by omega)]
    exact hbound.ticks.trans_lt (by norm_num)))
  have hrounded (hw : s.Writable) : (n / tb : Rat) ≤ nearest (nearest (k / 1) / nearest tb) := by
    obtain ⟨y, rfl⟩ := exists_float_of_div hw hdiv
    rw [div_one, hself]
    exact div_le_nearest_div hbase (nearest_le_largest_of_div hd) hn hnk hbound.ticks
  rw [seconds, hs, Option.getD_some]
  cases s with
  | frac r => simpa only [rounding, div_one] using hle
  | int m => exact hrounded (writable_iff.2 (.inl ⟨m, rfl⟩))
  | float y => exact hrounded (writable_iff.2 (.inr ⟨y, rfl⟩))
  | complex re im => cases hs

theorem div_int_frac (n : Int) (htb : 0 < tb) :
    div (.int n) (.frac tb) = .ok (.frac (n / tb)) := by
  rw [div, if_neg htb.ne']

theorem millis?_time_int (htb : 0 < tb) (hn : 0 ≤ n) (hlt : (n / tb : Rat) < 2 ^ 53)
    (htime : time (.int n) tb = .ok code) : millis? code = some (millis (n / tb)) := by
  have hn' : (0 : Rat) ≤ n := by exact_mod_cast hn
  rw [time, div_int_frac n htb, ok_bind] at htime
  obtain ⟨code', htext, hcode⟩ :=
    text_standard (x := .frac (n / tb)) rfl (by simp) (by positivity) hlt
  rw [htime, Except.ok.injEq] at htext
  rw [htext, hcode]

theorem time_int_of_neg (htb : 0 < tb) (hn : n < 0) (htime : time (.int n) tb = .ok code) :
    ∃ rest, code = "-" ++ rest := by
  rw [time, div_int_frac n htb, ok_bind] at htime
  exact text_of_neg rfl (div_neg_of_neg_of_pos (by exact_mod_cast hn) htb) htime

end

def begins (tb : Rat) (c : Chunk) : Rat :=
  if isNormal c then ((c.start - 1 : Int) : Rat) / tb else seconds tb c.speed c.start

def ends (tb : Rat) (c : Chunk) : Rat := seconds tb c.speed (max 0 (c.stop - 2))

def Valid (x : Xml) : Prop :=
  ∃ first last, (x.attr? "in").bind millis? = some first ∧
    (x.attr? "out").bind millis? = some last ∧ first ≤ last

/-- How the entry of a chunk lies in time. It begins before zero just if the chunk is the first and
at normal speed. Any other entry is valid, unless its chunk is one tick after the start: then its
times are in order if rounding makes them so, and at another speed they are not if a tick lasts two
milliseconds. -/
structure Timed (tb : Rat) (c : Chunk) (x : Xml) : Prop where
  signed_iff : (∃ rest, x.attr? "in" = some ("-" ++ rest)) ↔ isNormal c ∧ c.start = 0
  valid_iff : Valid x ↔ (isNormal c → 0 < c.start) ∧
    (0 < c.start → c.length = 1 → millis (begins tb c) ≤ millis (ends tb c))
  not_valid : ∀ q, c.speed.toRat? = some q → ¬ isNormal c → 0 < c.start → c.length = 1 →
    q * tb ≤ 500 → (c.start / q / tb : Rat) ≤ 2 ^ 30 → ¬ Valid x

section

variable {tb q : Rat} {c : Chunk} (htb : 0 < tb) (hs : c.speed.toRat? = some q) (hq : 0 < q)
  (hq' : q ≤ 99999) (hstart : 0 ≤ c.start) (hlt : c.start < c.stop)
  (hbound : Bounded tb c.speed c.stop)

include hs in
theorem isNormal_iff : isNormal c ↔ q = 1 := by
  have := eqv_iff_of_toRat? hs (toRat?_ofNat 1)
  rwa [Nat.cast_one] at this

include htb in
theorem first_of_neg {first : String} (hn : isNormal c) (hzero : c.start = 0)
    (h : (firstTick c >>= (time · tb)) = .ok first) : ∃ rest, first = "-" ++ rest := by
  rw [firstTick, if_pos hn] at h
  exact time_int_of_neg htb (by omega : c.start - 1 < 0) h

include htb hs hq hq' hstart hlt hbound

theorem millis?_first {first : String} (hpos : isNormal c → 0 < c.start)
    (h : (firstTick c >>= (time · tb)) = .ok first) :
    millis? first = some (millis (begins tb c)) := by
  have hbound' := hbound.mono hs hq htb hlt.le
  rw [firstTick] at h
  rw [begins]
  split at h
  · next hn =>
    rw [if_pos hn]
    have hseconds := (hbound.mono hs hq htb (by omega : c.start - 1 ≤ c.stop)).seconds
    rw [hs, Option.getD_some, (isNormal_iff hs).1 hn, div_one] at hseconds
    exact millis?_time_int htb (by have := hpos hn; omega) (hseconds.trans_lt (by norm_num)) h
  · next hn =>
    rw [if_neg hn]
    simp only [bind_assoc, pure_bind, bind_eq_ok] at h
    obtain ⟨x, hdiv, htime⟩ := h
    exact millis?_time hs hq hq' htb hstart hbound' hdiv htime

theorem millis?_last {last : String} (h : (lastTick c >>= (time · tb)) = .ok last) :
    millis? last = some (millis (ends tb c)) := by
  simp only [lastTick, bind_assoc, pure_bind, bind_eq_ok] at h
  obtain ⟨x, hdiv, htime⟩ := h
  rw [ends]
  rcases le_or_gt 0 (c.stop - 2) with hle | hneg
  · rw [max_eq_right hle]
    exact millis?_time hs hq hq' htb hle (hbound.mono hs hq htb (by omega)) hdiv htime
  · have hstop : c.stop = 1 := by omega
    have hplayed := hbound.played
    rw [hstop, hs, Option.getD_some, Int.cast_one] at hplayed
    rw [show c.stop - 2 = -1 by omega] at hdiv
    have hinv : 1 / 2 ^ 17 ≤ 1 / q := by
      rw [div_le_div_iff₀ (by norm_num) hq]
      linarith
    obtain ⟨hx, -, -⟩ := toRat?_div_int hs hq (by norm_num) (le_largest (by
      rw [Int.cast_neg, Int.cast_one, abs_div, abs_neg, abs_one, abs_of_pos hq]
      exact hplayed.trans (by norm_num))) hdiv
    have hgrid : OnGrid (-(1 / 2 ^ 17)) := ⟨-1, -17, by norm_num, by norm_num, by norm_num⟩
    have hvalue : c.speed.rounding (((-1 : Int) : Rat) / q) < 0 :=
      (c.speed.rounding_le_of_le hgrid (by
        rw [Int.cast_neg, Int.cast_one, neg_div]
        exact neg_le_neg hinv)).trans_lt (by norm_num)
    rw [atLeastZero_of_neg hx hvalue] at htime
    rw [max_eq_left hneg.le, seconds_zero, millis?_time_int htb le_rfl (by simp) htime,
      Int.cast_zero, zero_div]

theorem millis_begins_le_ends {last : String} (h : (lastTick c >>= (time · tb)) = .ok last)
    (hpos : isNormal c → 0 < c.start) (hlong : c.start = 0 ∨ 1 < c.length) :
    millis (begins tb c) ≤ millis (ends tb c) := by
  rw [begins, ends]
  split
  · next hn =>
    have hfirst := hpos hn
    rw [length] at hlong
    obtain rfl := (isNormal_iff hs).1 hn
    simp only [lastTick, bind_assoc, pure_bind, bind_eq_ok] at h
    obtain ⟨x, hdiv, htime⟩ := h
    have hbound' := hbound.mono hs hq htb (by omega : c.stop - 2 ≤ c.stop)
    rw [(ticks_of_div hs hq (by omega) hbound' hdiv).atLeast, time, bind_eq_ok] at htime
    obtain ⟨d, hd, -⟩ := htime
    have hn' : (0 : Rat) ≤ ((c.start - 1 : Int) : Rat) := by exact_mod_cast (by omega)
    rw [max_eq_right (by omega)]
    exact millis_mono (by positivity) (div_le_seconds hs htb (by omega) (by omega) hbound' hdiv hd)
  · next hn =>
    refine millis_mono (seconds_nonneg hs hq htb hstart) (seconds_mono hs hq htb ?_)
    rw [length] at hlong
    omega

theorem millis_ends_lt_begins (hn : ¬ isNormal c) (hpos : 0 < c.start) (hone : c.length = 1)
    (htick : q * tb ≤ 500) (hshort : (c.start / q / tb : Rat) ≤ 2 ^ 30) :
    millis (ends tb c) < millis (begins tb c) := by
  have hstop : c.stop - 2 = c.start - 1 := by
    rw [length] at hone
    omega
  rw [begins, if_neg hn, ends, hstop, max_eq_right (by omega)]
  have hfirst := abs_le.1 (abs_seconds_sub_le hs hq hq' htb hstart
    (hbound.mono hs hq htb hlt.le) htick)
  have hlast := abs_le.1 (abs_seconds_sub_le hs hq hq' htb (by omega : 0 ≤ c.start - 1)
    (hbound.mono hs hq htb (by omega)) htick)
  have hgap : (((c.start - 1 : Int) : Rat) / q / tb) = c.start / q / tb - 1 / (q * tb) := by
    push_cast
    ring
  have hlong : 1 / 500 ≤ 1 / (q * tb) := by
    rw [div_le_div_iff₀ (by norm_num) (by positivity)]
    linarith
  refine millis_lt_millis (seconds_nonneg hs hq htb (by omega)) ?_
  rw [hgap] at hlast
  linarith

theorem timed_of_entry {id : String} {x : Xml} (h : entry tb id c = .ok x) : Timed tb c x := by
  obtain ⟨first, last, hfirst, hlast, rfl⟩ := entry_eq_ok.1 h
  have hout := millis?_last htb hs hq hq' hstart hlt hbound hlast
  by_cases hsigned : isNormal c ∧ c.start = 0
  · obtain ⟨rest, rfl⟩ := first_of_neg htb hsigned.1 hsigned.2 hfirst
    refine ⟨iff_of_true ⟨rest, rfl⟩ hsigned, iff_of_false ?_ (by simp [hsigned]),
      fun _ _ hn => absurd hsigned.1 hn⟩
    rintro ⟨a, b, hin, -⟩
    cases (millis?_minus rest).symm.trans hin
  · have hpos : isNormal c → 0 < c.start := fun hn =>
      lt_of_le_of_ne hstart fun hzero => hsigned ⟨hn, hzero.symm⟩
    have hin := millis?_first htb hs hq hq' hstart hlt hbound hpos hfirst
    have hvalid : Valid (nodeWith "entry" [("producer", id), ("in", first), ("out", last)] []) ↔
        millis (begins tb c) ≤ millis (ends tb c) := by
      change (∃ a b, millis? first = some a ∧ millis? last = some b ∧ a ≤ b) ↔ _
      simp [hin, hout]
    refine ⟨iff_of_false ?_ hsigned, ?_, ?_⟩
    · rintro ⟨rest, hrest⟩
      obtain rfl : first = "-" ++ rest := Option.some_inj.1 hrest
      rw [millis?_minus] at hin
      cases hin
    · rw [hvalid]
      refine ⟨fun hle => ⟨hpos, fun _ _ => hle⟩, fun hone => ?_⟩
      by_cases hlong : c.start = 0 ∨ 1 < c.length
      · exact millis_begins_le_ends htb hs hq hq' hstart hlt hbound hlast hpos hlong
      · have hlength : c.length = c.stop - c.start := rfl
        exact hone.2 (by omega) (by omega)
    · intro r hr hn hlate hone htick hshort
      obtain rfl : q = r := Option.some_inj.1 (hs.symm.trans hr)
      rw [hvalid, not_le]
      exact millis_ends_lt_begins htb hs hq hq' hstart hlt hbound hn hlate hone htick hshort

end

theorem playlist_of_document {t : Timeline} {src : Source} {cs : List Chunk} {doc : Xml}
    (h : document t src cs = .ok doc) :
    List.Forall₂ (fun p x => p.1 ∈ kept cs ∧ entry t.tb p.2.text p.1 = .ok x) (called 0 0 cs)
      (playlist "playlist0" doc) := by
  obtain ⟨out, clips, played, rfl, -, hplayed, hdefined, hplays⟩ := exists_frame h
  rw [playlist_frame t out hdefined hplays, List.forall₂_and_left,
    ← map_fst_called (a := 0) (b := 0)]
  exact ⟨fun p hp => List.mem_map_of_mem hp, hplayed⟩

instance (tb : Rat) (s : Number) (n : Int) : Decidable (Bounded tb s n) :=
  decidable_of_iff (n ≤ 2 ^ 50 ∧ n / s.toRat?.getD 0 ≤ (2 ^ 50 : Rat) ∧
    n / s.toRat?.getD 0 / tb ≤ (2 ^ 50 : Rat))
    ⟨fun h => ⟨h.1, h.2.1, h.2.2⟩, fun h => ⟨h.ticks, h.played, h.seconds⟩⟩

end Shotcut

open Shotcut

/-- What is played goes from a time to one that is not before it, but for a first chunk at normal
speed, which begins before zero, and for chunks of one tick. -/
theorem Timeline.writeShotcut_valid_iff {t : Timeline} {src : Source} {cs : List Chunk} {n : Int}
    {path : String} {w w' : Workspace} (hchunks : t.chunks = some cs)
    (hsrc : t.source "0" = .ok src) (htb : 0 < t.tb) (htiles : Tiles 0 n cs)
    (hspeeds : ∀ c ∈ cs, c.speed.IsSpeed)
    (hbounds : ∀ c ∈ kept cs, Bounded t.tb c.speed c.stop)
    (hwrite : t.writeShotcut path w = .ok () w') :
    ∃ doc, w'.tree.read? (absolutePath path) = some doc.document.toUTF8 ∧
      List.Forall₂ (Timed t.tb) (kept cs) (playlist "playlist0" doc) := by
  obtain ⟨doc, hdoc, hwritten⟩ := (writeShotcut_eq_ok hchunks hsrc).1 hwrite
  refine ⟨doc, Session.read?_of_writeText hwritten, ?_⟩
  have hplayed := playlist_of_document hdoc
  rw [← map_fst_called (a := 0) (b := 0), List.forall₂_map_left_iff]
  refine hplayed.imp ?_
  rintro p x ⟨hkept, hentry⟩
  have hp : p.1 ∈ cs := List.mem_of_mem_filter hkept
  obtain ⟨q, hs, hq, hq'⟩ := hspeeds p.1 hp
  obtain ⟨hstart, hlt⟩ := htiles.start_le hp
  exact timed_of_entry htb hs hq hq' hstart hlt (hbounds p.1 hkept) hentry

theorem Timeline.writeShotcut_valid_iff_song :
    ∃ w' doc, song.writeShotcut "o.mlt" emptyFolder = .ok () w' ∧
      w'.tree.read? (absolutePath "o.mlt") = some doc.document.toUTF8 ∧
      List.Forall₂ (Timed 30)
        [⟨0, 3, 1⟩, ⟨3, 6, .float 2.0⟩, ⟨9, 10, .float 1.0⟩, ⟨10, 14, 3⟩]
        (playlist "playlist0" doc) := by
  have hends : (song.writeShotcut "o.mlt").run' emptyFolder = some () := by
    decide +kernel
  obtain ⟨w', hwrite⟩ := run'_eq_some.1 hends
  have hspeeds : ∀ c ∈ ([⟨0, 3, 1⟩, ⟨3, 6, .float 2.0⟩, ⟨6, 9, 99999⟩, ⟨9, 10, .float 1.0⟩,
      ⟨10, 14, 3⟩] : List Chunk), c.speed.IsSpeed := by
    have htwo : (float 2.0).toRat? = some 2 := by decide +kernel
    simp only [List.forall_mem_cons, List.not_mem_nil, false_imp_iff, implies_true, and_true]
    exact ⟨⟨1, rfl, by norm_num, by norm_num⟩, ⟨2, htwo, by norm_num, by norm_num⟩,
      ⟨99999, rfl, by norm_num, by norm_num⟩, ⟨1, toRat?_one, by norm_num, by norm_num⟩,
      ⟨3, rfl, by norm_num, by norm_num⟩⟩
  obtain ⟨doc, hdoc, htimed⟩ := @writeShotcut_valid_iff song _ _ 14 "o.mlt" emptyFolder w' rfl rfl
    (by norm_num [song]) (by simp [Tiles]) hspeeds (by decide +kernel) hwrite
  exact ⟨w', doc, hwrite, hdoc, htimed⟩

theorem Shotcut.entry_before_start :
    (entry 30 "chain0" ⟨0, 10, 1⟩).map (fun x => (x.attr? "in", x.attr? "out")) =
      .ok (some "-00:00:00.033", some "00:00:00.267") ∧
    TimeFormat.millis? "-00:00:00.033" = none :=
  ⟨by decide +kernel, TimeFormat.millis?_minus "00:00:00.033"⟩

end Jumpcut
