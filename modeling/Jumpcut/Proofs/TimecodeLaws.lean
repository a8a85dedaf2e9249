import Jumpcut.Proofs.ClockLaws

/-!
Time codes to the millisecond. A rounded number of seconds is divided into hours, minutes and
seconds without rounding it again, so one rule says what is written for exact and for rounded times.
A code can be read back, and codes are in the order of the times. The seconds are rounded after they
have been taken apart, so sixty of them may be written (`timecode_canonical_iff`).
-/
namespace Jumpcut

open Outcome List ClockTime Number Exact

namespace Exact

variable {q : Rat} {x : Float}

theorem Stores.abs {u : Float.Model.UnpackedFloat} (h : Stores u q) : Stores u.abs |q| := by
  rcases h.cases with ⟨s, rfl, rfl⟩ | ⟨s, m, e, hm, rfl, rfl, hform⟩
  · rw [abs_zero]
    exact stores_zero .positive
  · rw [abs_signed]
    exact ⟨hform, rfl⟩

theorem ofFloat?_abs (h : ofFloat? x = some q) : ofFloat? x.abs = some |q| := by
  refine (stores_unpack h).abs.ofFloat?.trans (inRange?_of_le ?_)
  rw [abs_abs]
  exact abs_le_largest h

theorem isNegative_of_classify {neg : Bool} {m : Nat} {e : Int} (h : classify x = .finite neg m e) :
    isNegative x = neg := by
  rw [classify] at h
  split at h
  · split at h <;> cases h
  · split at h <;> cases h <;> rfl

theorem scaled_nonneg (m : Nat) (e : Int) : 0 ≤ scaled m e := by
  rw [scaled_eq]
  exact mul_nonneg (Int.cast_nonneg (Int.natCast_nonneg m)) (two_zpow_pos e).le

theorem isNegative_of_pos (h : ofFloat? x = some q) (hq : 0 < q) : isNegative x = false := by
  obtain ⟨neg, m, e, hx⟩ := ofFloat?_finite h
  rw [isNegative_of_classify hx]
  cases neg with
  | false => rfl
  | true =>
    rw [ofFloat?, hx, Option.some_inj] at h
    have hneg : scaled (-(m : Int)) e = -scaled m e := by
      simp only [scaled_eq, Int.cast_neg, neg_mul]
    have := scaled_nonneg m e
    rw [if_pos rfl, hneg] at h
    linarith

theorem classify_of_not_isNegative (h : ofFloat? x = some q) (hx : isNegative x = false) :
    ∃ m e, classify x = .finite false m e ∧ scaled m e = q := by
  obtain ⟨neg, m, e, hclass⟩ := ofFloat?_finite h
  obtain rfl : neg = false := (isNegative_of_classify hclass).symm.trans hx
  rw [ofFloat?, hclass] at h
  exact ⟨m, e, hclass, Option.some_inj.1 h⟩

theorem ofFloat?_copySign_zero (y : Float) (hx : ofFloat? x = some 0) :
    ofFloat? (copySign x y) = some 0 := by
  rw [copySign]
  split
  · rw [ofFloat?_neg (ofFloat?_abs hx), abs_zero, neg_zero]
  · rw [ofFloat?_abs hx, abs_zero]

section

variable {v : Rat} {b : Nat}

theorem onGrid_sub_floor (hgrid : OnGrid v) (hv : 0 ≤ v) (hb : 0 < b) (hb' : b ≤ 2 ^ 53) :
    OnGrid (v - b * ⌊v / b⌋₊) := by
  obtain ⟨hlo, hhi⟩ := sub_floor_bounds hv hb
  obtain ⟨m, e, hm, he, rfl⟩ := hgrid
  generalize ⌊(m * 2 ^ e / b : Rat)⌋₊ = j at *
  -- A number with an exponent of zero or more is whole, and its remainder is a small whole number.
  -- Any other remainder keeps the exponent and has no more digits.
  rcases le_or_gt 0 e with hwhole | hpart
  · obtain ⟨k, rfl⟩ := Int.eq_ofNat_of_zero_le hwhole
    have hvalue : (m * 2 ^ (k : Int) - b * j : Rat) = ((m * 2 ^ k - b * j : Int) : Rat) := by
      push_cast
      rw [zpow_natCast]
    rw [hvalue] at hlo hhi ⊢
    apply onGrid_intCast
    have h₁ : 0 ≤ m * 2 ^ k - (b * j : Int) := by exact_mod_cast hlo
    have h₂ : m * 2 ^ k - (b * j : Int) < b := by exact_mod_cast hhi
    rw [abs_of_nonneg h₁]
    omega
  · obtain ⟨k, hk⟩ := Int.eq_ofNat_of_zero_le (show 0 ≤ -e by omega)
    have hpow := two_zpow_pos e
    have hunit : (2 : Rat) ^ k * 2 ^ e = 1 := by
      rw [two_pow_mul_zpow, show (k : Int) + e = 0 by omega, zpow_zero]
    have hvalue : (m * 2 ^ e - b * j : Rat) = ((m - b * j * 2 ^ k : Int) : Rat) * 2 ^ e := by
      push_cast
      linear_combination (b * j : Rat) * hunit
    refine ⟨m - b * j * 2 ^ k, e, ?_, he, hvalue⟩
    rw [hvalue] at hlo
    have hnonneg : 0 ≤ m - (b * j * 2 ^ k : Int) :=
      Int.cast_nonneg_iff.1 (nonneg_of_mul_nonneg_left hlo hpow)
    have hle : (0 : Int) ≤ b * j * 2 ^ k := by positivity
    rw [abs_lt] at hm
    rw [abs_of_nonneg hnonneg]
    omega

theorem ofFloat?_remainder {x y : Float} (hx : ofFloat? x = some v)
    (hy : ofFloat? y = some (b : Rat)) (hv : 0 ≤ v) (hb : 0 < b) (hb' : b ≤ 2 ^ 53) :
    ofFloat? (remainder x y) = some (v - b * ⌊v / b⌋₊) := by
  obtain ⟨hlo, hhi⟩ := sub_floor_bounds hv hb
  have hgrid := onGrid_sub_floor (onGrid_of_ofFloat? hx) hv hb hb'
  have hfloor : (trunc (v / b) : Rat) = ⌊v / b⌋₊ := by
    rw [trunc_eq_floor (by positivity), ← Int.natCast_floor_eq_floor (by positivity),
      Int.cast_natCast]
  have hle : |v - b * ⌊v / b⌋₊| ≤ largest := le_largest (by
    rw [abs_of_nonneg hlo]
    exact hhi.le.trans (by exact_mod_cast hb'))
  obtain ⟨z, hz, hvalue⟩ := toFloat?_ok hle
  rw [nearest_eq_self hgrid] at hvalue
  have hne : (b : Rat) ≠ 0 := Nat.cast_ne_zero.2 hb.ne'
  have hremainder : remainder x y = copySign z x := by
    simp only [remainder, hx, hy, if_neg hne, hfloor, hz, Option.getD_some]
  rw [hremainder]
  rcases hv.lt_or_eq with hpos | rfl
  · rw [copySign, isNegative_of_pos hx hpos, if_neg Bool.false_ne_true, ofFloat?_abs hvalue,
      abs_of_nonneg hlo]
  · rw [zero_div, Nat.floor_zero, Nat.cast_zero, mul_zero, sub_zero] at hvalue ⊢
    exact ofFloat?_copySign_zero x hvalue

end

end Exact

namespace Number

open Exact

theorem alignRemainder_of_nonneg {q r y : Float} {a b : Rat} (hr : ofFloat? r = some a) (ha : 0 ≤ a)
    (hy : ofFloat? y = some b) (hb : 0 < b) :
    ∃ s, alignRemainder q r y = (q, s) ∧ ofFloat? s = some a ∧ isNegative s = false := by
  have hzero : ofFloat? 0.0 = some 0 := by decide +kernel
  have hy' : decide (y < 0.0) = false := by
    rw [decide_eq_false_iff_not, lt_iff_of_ofFloat? hy hzero]
    exact hb.not_gt
  have hr' : decide (r < 0.0) = false := by
    rw [decide_eq_false_iff_not, lt_iff_of_ofFloat? hr hzero]
    exact ha.not_gt
  rw [alignRemainder, hy', hr', bne]
  rcases ha.lt_or_eq with hpos | rfl
  · rw [beq_zero_of_ne hr hpos.ne']
    exact ⟨r, rfl, hr, isNegative_of_pos hr hpos⟩
  · have habs : ofFloat? (0.0 : Float).abs = some 0 ∧ isNegative (0.0 : Float).abs = false := by
      decide +kernel
    rw [(beq_zero_iff hr).2 rfl, copySign, isNegative_of_pos hy hb]
    exact ⟨_, rfl, habs⟩

theorem ofFloat?_wholeQuotient {q : Float} (exact : Float) {n : Nat}
    (hq : ofFloat? q = some (n : Rat)) : ofFloat? (wholeQuotient q exact) = some (n : Rat) := by
  have hzero : ofFloat? 0.0 = some 0 := by decide +kernel
  have hhalf : ofFloat? 0.5 = some (1 / 2) := by decide +kernel
  rw [wholeQuotient, bne]
  by_cases hn : (n : Rat) = 0
  · rw [(beq_zero_iff hq).2 hn, hn]
    exact ofFloat?_copySign_zero exact hzero
  · have hfloor : floorFloat q = q := by simp [floorFloat, hq]
    have hdiff : ofFloat? (q - q) = some 0 := by
      rw [ofFloat?_sub hq hq, sub_self, nearest_zero, inRange?_of_le (le_largest (by norm_num))]
    have hsmall : ¬ q - q > 0.5 := by
      rw [gt_iff_lt, lt_iff_of_ofFloat? hhalf hdiff]
      norm_num
    simp only [beq_zero_of_ne hq hn, Bool.not_false, if_true, hfloor, if_neg hsmall, hq]

theorem floatDivMod_ok {x y : Float} {v : Rat} {b : Nat} (hx : ofFloat? x = some v)
    (hy : ofFloat? y = some (b : Rat)) (hv : 0 ≤ v) (hv' : v < 2 ^ 53) (hb : 0 < b)
    (hb' : b ≤ 2 ^ 53) :
    ∃ q r, floatDivMod x y = .ok (q, r) ∧ ofFloat? q = some (⌊v / b⌋₊ : Rat) ∧
      ofFloat? r = some (v - b * ⌊v / b⌋₊) ∧ isNegative r = false := by
  obtain ⟨hlo, hhi⟩ := sub_floor_bounds hv hb
  have hpos : (0 : Rat) < b := Nat.cast_pos.2 hb
  have hr := ofFloat?_remainder hx hy hv hb hb'
  have hmul : (b * ⌊v / b⌋₊ : Rat) < 2 ^ 53 := by linarith
  generalize ⌊v / b⌋₊ = j at *
  have hself {n : Nat} (hn : n < 2 ^ 53) : inRange? (nearest (n : Rat)) = some (n : Rat) := by
    have hgrid : OnGrid ((n : Int) : Rat) := onGrid_intCast (by
      rw [Nat.abs_cast]
      exact_mod_cast hn)
    rw [Int.cast_natCast] at hgrid
    rw [nearest_eq_self hgrid, inRange?_of_le (le_largest _)]
    rw [Nat.abs_cast]
    exact_mod_cast hn.le
  have hbj : b * j < 2 ^ 53 := by exact_mod_cast hmul
  have hj : j < 2 ^ 53 := (Nat.le_mul_of_pos_left j hb).trans_lt hbj
  -- Neither the multiple that is left without the remainder nor its quotient is rounded.
  have hq : ofFloat? ((x - remainder x y) / y) = some (j : Rat) := by
    have hsub : ofFloat? (x - remainder x y) = some ((b * j : Nat) : Rat) := by
      rw [ofFloat?_sub hx hr, sub_sub_cancel, ← Nat.cast_mul, hself hbj]
    rw [ofFloat?_div hsub hy hpos.ne', Nat.cast_mul, mul_div_cancel_left₀ _ hpos.ne', hself hj]
  obtain ⟨r, halign, hvalue, hsign⟩ :=
    @alignRemainder_of_nonneg ((x - remainder x y) / y) _ _ _ _ hr hlo hy hpos
  refine ⟨_, r, ?_, ofFloat?_wholeQuotient (x / y) hq, hvalue, hsign⟩
  rw [floatDivMod, beq_zero_of_ne hy hpos.ne', if_neg Bool.false_ne_true]
  simp only [halign]

end Number

namespace ClockTime

open Exact

theorem toFloat_sixty : ∃ y, toFloat (.int 60) = .ok y ∧
    ofFloat? y = some ((60 : Nat) : Rat) :=
  ⟨60.0, by decide +kernel, by decide +kernel⟩

theorem ofSeconds_float {x : Float} {v : Rat} (hx : ofFloat? x = some v) (hv : 0 ≤ v)
    (hv' : v < 2 ^ 53) : ∃ r, ofSeconds (.float x) =
      .ok ⟨(⌊v / 60⌋₊ / 60 : Nat), (⌊v / 60⌋₊ % 60 : Nat), r⟩ ∧
      ofFloat? r = some (v - 60 * ⌊v / 60⌋₊) ∧ isNegative r = false := by
  obtain ⟨y, hsixty, hy⟩ := toFloat_sixty
  have hstep {x : Float} {v : Rat} (hx : ofFloat? x = some v) (hv : 0 ≤ v) (hv' : v < 2 ^ 53) :
      ∃ q r, divMod (.float x) 60 = .ok (.float q, .float r) ∧
        ofFloat? q = some (⌊v / 60⌋₊ : Rat) ∧ ofFloat? r = some (v - 60 * ⌊v / 60⌋₊) ∧
        isNegative r = false := by
    obtain ⟨q, r, hdiv, hq, hr, hsign⟩ :=
      floatDivMod_ok hx hy hv hv' (by norm_num) (by norm_num)
    refine ⟨q, r, ?_, hq, hr, hsign⟩
    change divMod (.float x) (.int 60) = _
    simp only [divMod, hsixty, hdiv, ok_bind]
    rfl
  have htrunc {z : Float} {n : Nat} (hz : ofFloat? z = some (n : Rat)) :
      trunc (.float z) = .ok (n : Int) :=
    trunc_float.2 ⟨n, hz, by exact_mod_cast trunc_intCast n⟩
  obtain ⟨q, r, hminutes, hq, hr, hsign⟩ := hstep hx hv hv'
  have hlt : (⌊v / 60⌋₊ : Rat) < 2 ^ 53 := by
    have := Nat.floor_le (show 0 ≤ v / 60 by positivity)
    linarith
  obtain ⟨h, m, hhours, hh, hm, -⟩ := hstep hq (Nat.cast_nonneg _) hlt
  generalize ⌊v / 60⌋₊ = j at *
  have hfloor : ⌊(j / 60 : Rat)⌋₊ = j / 60 := by rw [Nat.floor_div_ofNat, Nat.floor_natCast]
  have hmod : (j - 60 * (j / 60 : Nat) : Rat) = (j % 60 : Nat) := by
    have : (j : Rat) = (60 * (j / 60) + j % 60 : Nat) := by rw [Nat.div_add_mod]
    push_cast at this ⊢
    linarith
  rw [hfloor] at hh hm
  rw [hmod] at hm
  refine ⟨r, ?_, hr, hsign⟩
  simp only [ofSeconds, hminutes, hhours, htrunc hh, htrunc hm, ok_bind]
  rfl

structure Splits (v : Rat) (t : ClockTime) : Prop where
  hours : t.hours = (⌊v / 60⌋₊ / 60 : Nat)
  minutes : t.minutes = (⌊v / 60⌋₊ % 60 : Nat)
  seconds : ofFloat? t.seconds = some (nearest (v - 60 * ⌊v / 60⌋₊))
  unsigned : isNegative t.seconds = false

theorem ofSeconds_ok {x : Number} {v : Rat} (hx : x.toRat? = some v) (hint : ∀ n, x ≠ .int n)
    (hv : 0 ≤ v) (hv' : v < 2 ^ 53) : ∃ t, ofSeconds x = .ok t ∧ t.Splits v := by
  cases x with
  | int n => exact absurd rfl (hint n)
  | frac q =>
    cases hx
    obtain ⟨s, hs, hclock⟩ := ofSeconds_frac hv
    obtain ⟨m, e, hclass, -⟩ := classify_of_toFloat? hs (seconds_bounds hv).1
    exact ⟨_, hclock, rfl, rfl, ofFloat?_of_toFloat? hs, isNegative_of_classify hclass⟩
  | float y =>
    obtain ⟨r, hclock, hr, hsign⟩ := ofSeconds_float hx hv hv'
    refine ⟨_, hclock, rfl, rfl, ?_, hsign⟩
    rw [nearest_eq_self (onGrid_of_ofFloat? hr)]
    exact hr
  | complex re im => cases hx

end ClockTime

namespace TimeFormat

open Exact Decimal Text

/-- The milliseconds that are written for a time: whole minutes, and what is left to the nearest. -/
def millis (q : Rat) : Nat :=
  60000 * ⌊q / 60⌋₊ + fixedUnits 3 (nearest (q - 60 * ⌊q / 60⌋₊))

variable {p q v : Rat} {x : Number}

theorem fixedUnits_mono (places : Nat) (hp : 0 ≤ p) (h : p ≤ q) :
    fixedUnits places p ≤ fixedUnits places q := by
  rw [← Int.ofNat_le, fixedUnits_eq_round places hp, fixedUnits_eq_round places (hp.trans h)]
  exact round_mono (mul_le_mul_of_nonneg_right h (by positivity))

theorem fixedUnits_sixty : fixedUnits 3 60 = 60000 := by decide +kernel

theorem millis_mono (hp : 0 ≤ p) (h : p ≤ q) : millis p ≤ millis q := by
  have hfloor : ⌊p / 60⌋₊ ≤ ⌊q / 60⌋₊ := Nat.floor_le_floor (by linarith)
  obtain ⟨hlo, hhi⟩ := seconds_bounds hp
  rw [millis, millis]
  rcases hfloor.eq_or_lt with heq | hlt
  · rw [← heq]
    have hunits := fixedUnits_mono 3 (nearest_nonneg hlo)
      (nearest_mono (by linarith : p - 60 * ⌊p / 60⌋₊ ≤ q - 60 * ⌊p / 60⌋₊))
    exact Nat.add_le_add_left hunits _
  · have hsixty : OnGrid 60 := ⟨60, 0, by norm_num, by norm_num, by norm_num⟩
    have hlast := fixedUnits_mono 3 (nearest_nonneg hlo) (nearest_le_of_le hsixty hhi.le)
    rw [fixedUnits_sixty] at hlast
    omega

theorem abs_millis_sub_le (hq : 0 ≤ q) :
    |(millis q / 1000 : Rat) - q| ≤ 1 / 2000 + 60 / 2 ^ 53 := by
  obtain ⟨hlo, hhi⟩ := seconds_bounds hq
  have hdecimal := abs_decimal_sub_le 3 hlo hhi.le
  have hsplit : (millis q / 1000 : Rat) - q =
      fixedUnits 3 (nearest (q - 60 * ⌊q / 60⌋₊)) / 10 ^ 3 - (q - 60 * ⌊q / 60⌋₊) := by
    rw [millis]
    push_cast
    ring
  rw [hsplit]
  exact hdecimal.trans (by norm_num)

theorem millis_lt_millis (hp : 0 ≤ p) (h : p + 3 / 2000 ≤ q) : millis p < millis q := by
  have hlow := (abs_le.1 (abs_millis_sub_le hp)).2
  have hhigh := (abs_le.1 (abs_millis_sub_le (show 0 ≤ q by linarith))).1
  have hlt : (millis p : Rat) < millis q := by linarith
  exact_mod_cast hlt

/-- The milliseconds of a code of hours, minutes and seconds. A code with a sign has none. -/
def millis? (code : String) : Option Nat :=
  match code.toList.splitOn ':' with
  | [hours, minutes, seconds] =>
    match seconds.splitOn '.' with
    | [whole, part] =>
      if (hours ++ minutes ++ whole ++ part).all Char.isDigit ∧ part.length = 3 then
        some (3600000 * Nat.ofDigitChars 10 hours 0 + 60000 * Nat.ofDigitChars 10 minutes 0 +
          Nat.ofDigitChars 10 (whole ++ part) 0)
      else none
    | _ => none
  | _ => none

theorem splitOn_triple {c : Char} {xs ys zs : List Char} (hxs : c ∉ xs) (hys : c ∉ ys) (hzs : c ∉ zs) :
    (xs ++ c :: (ys ++ c :: zs)).splitOn c = [xs, ys, zs] := by
  rw [show xs ++ c :: (ys ++ c :: zs) = [c].intercalate [xs, ys, zs] by simp [intercalate]]
  exact splitOn_intercalate c (by simp [hxs, hys, hzs]) (by simp)

theorem splitOn_pair {c : Char} {xs ys : List Char} (hxs : c ∉ xs) (hys : c ∉ ys) :
    (xs ++ c :: ys).splitOn c = [xs, ys] := by
  rw [show xs ++ c :: ys = [c].intercalate [xs, ys] by simp [intercalate]]
  exact splitOn_intercalate c (by simp [hxs, hys]) (by simp)

theorem colon_notMem {ds es : List Char} {n : Nat} (h : Spells (ds ++ es) n) {p : Char}
    (hp : p = '.' ∨ p = ',') : ':' ∉ ds ++ p :: es := by
  have hcolon : ':' ∉ ds ++ es := notMem_of_isDigit h.digits rfl
  rcases hp with rfl | rfl <;> simpa using hcolon

theorem millis?_of_spells {code : String} {hs ms ds es : List Char} {h m n : Nat}
    (hcode : code.toList = hs ++ ':' :: (ms ++ ':' :: (ds ++ '.' :: es))) (hhs : Spells hs h)
    (hms : Spells ms m) (hsecs : Spells (ds ++ es) n) (hes : es.length = 3) :
    millis? code = some (3600000 * h + 60000 * m + n) := by
  have hsecs' := hsecs.digits
  simp only [forall_mem_append] at hsecs'
  have hcolon : code.toList.splitOn ':' = [hs, ms, ds ++ '.' :: es] := by
    rw [hcode]
    exact splitOn_triple (notMem_of_isDigit hhs.digits rfl) (notMem_of_isDigit hms.digits rfl)
      (colon_notMem hsecs (.inl rfl))
  have hpoint : (ds ++ '.' :: es).splitOn '.' = [ds, es] :=
    splitOn_pair (notMem_of_isDigit hsecs'.1 rfl) (notMem_of_isDigit hsecs'.2 rfl)
  have hall : (hs ++ ms ++ ds ++ es).all Char.isDigit := by
    simp only [all_eq_true, forall_mem_append]
    exact ⟨⟨⟨hhs.digits, hms.digits⟩, hsecs'.1⟩, hsecs'.2⟩
  simp only [millis?, hcolon, hpoint]
  rw [if_pos ⟨hall, hes⟩, hhs.value, hms.value, hsecs.value]

theorem millis?_minus (s : String) : millis? ("-" ++ s) = none := by
  have hparts := @intercalate_splitOn _ ("-" ++ s).toList _ _ ':'
  rw [millis?]
  split
  · next h m secs hsplit =>
    rw [hsplit] at hparts
    have hminus : '-' ∈ h := by
      cases h with
      | nil => simp [intercalate] at hparts
      | cons c h =>
        simp [intercalate] at hparts
        simp [hparts.1]
    split
    · next whole part hpoint =>
      rw [if_neg]
      rintro ⟨hall, -⟩
      simp only [all_append, Bool.and_eq_true, all_eq_true] at hall
      exact Bool.false_ne_true (hall.1.1.1 '-' hminus)
    · rfl
  · rfl

theorem lt_zero_iff (hx : x.toRat? = some v) : x.lt 0 ↔ v < 0 := by
  have := lt_iff_of_toRat? hx (toRat?_ofNat 0)
  rwa [Nat.cast_zero] at this

theorem toList_unsigned_standard {t : ClockTime} {ds es : List Char}
    (h : (t.secondsText 3).toList = ds ++ '.' :: es) :
    (standard.unsigned t).toList = (twoDigits t.hours).toList ++ ':' ::
      ((twoDigits t.minutes).toList ++ ':' :: (ds ++ '.' :: es)) := by
  rw [← h]
  simp [unsigned, minutesText]

theorem text_standard (hx : x.toRat? = some v) (hint : ∀ n, x ≠ .int n) (hv : 0 ≤ v)
    (hv' : v < 2 ^ 53) : ∃ code, standard.text x = .ok code ∧ millis? code = some (millis v) := by
  obtain ⟨t, ht, hsplits⟩ := ofSeconds_ok hx hint hv hv'
  obtain ⟨m, e, hclass, hvalue⟩ := classify_of_not_isNegative hsplits.seconds hsplits.unsigned
  obtain ⟨ds, es, hsecs, -, hes, hspells⟩ :=
    @toList_secondsText_of_classify 3 (by norm_num) t m e hclass
  have hcode := toList_unsigned_standard hsecs
  refine ⟨standard.unsigned t, ?_, ?_⟩
  · rw [text, if_neg (by rw [lt_zero_iff hx]; exact hv.not_gt), ht]
    rfl
  · rw [hsplits.hours, hsplits.minutes] at hcode
    rw [millis?_of_spells hcode (spells_twoDigits _) (spells_twoDigits _) hspells hes,
      hvalue, millis]
    congr 2
    omega

theorem text_of_neg {code : String} (hx : x.toRat? = some v) (hv : v < 0)
    (h : standard.text x = .ok code) : ∃ rest, code = "-" ++ rest := by
  rw [text, if_pos ((lt_zero_iff hx).2 hv)] at h
  simp only [bind_eq_ok, pure_eq_ok] at h
  obtain ⟨t, -, rfl⟩ := h
  exact ⟨_, rfl⟩

/-- The parts of a time code. The seconds count in units of their last decimal. -/
structure Fields where
  (hours minutes units places : Nat)

namespace Fields

def time (t : Fields) : Rat := 3600 * t.hours + 60 * t.minutes + t.units / 10 ^ t.places

def ofParts? (hours minutes seconds : List Char) : Option Fields :=
  match (seconds.map fun c => if c = ',' then '.' else c).splitOn '.' with
  | [whole, part] =>
    if [hours, minutes, whole, part].all fun ds => !ds.isEmpty && ds.all Char.isDigit then
      some ⟨Nat.ofDigitChars 10 hours 0, Nat.ofDigitChars 10 minutes 0,
        Nat.ofDigitChars 10 (whole ++ part) 0, part.length⟩
    else none
  | _ => none

/-- Minutes and seconds are below sixty, and no other code of this length is nearer to the time. -/
structure Canonical (t : Fields) (q : Rat) : Prop where
  minutes : t.minutes < 60
  seconds : t.units < 60 * 10 ^ t.places
  near : |t.time - q| ≤ 1 / (2 * 10 ^ t.places)

end Fields

def fields? (code : String) : Option Fields :=
  match code.toList.splitOn ':' with
  | [minutes, seconds] => Fields.ofParts? ['0'] minutes seconds
  | [hours, minutes, seconds] => Fields.ofParts? hours minutes seconds
  | _ => none

section

variable {code : String} {hs ms ds es : List Char} {h m n : Nat} {p : Char}
  (hp : p = '.' ∨ p = ',') (hms : Spells ms m) (hsecs : Spells (ds ++ es) n) (hds : ds ≠ [])
  (hes : es ≠ [])

include hp hms hsecs hds hes

theorem ofParts?_of_spells (hhs : Spells hs h) :
    Fields.ofParts? hs ms (ds ++ p :: es) = some ⟨h, m, n, es.length⟩ := by
  have hmark {cs : List Char} (hcs : ∀ c ∈ cs, c.isDigit) :
      cs.map (fun c => if c = ',' then '.' else c) = cs := by
    refine (map_congr_left fun c hc => if_neg ?_).trans (map_id' cs)
    exact ne_of_isDigit (hcs c hc) rfl
  have hdigits := hsecs.digits
  simp only [forall_mem_append] at hdigits
  have hsplit : ((ds ++ p :: es).map fun c => if c = ',' then '.' else c).splitOn '.' = [ds, es] := by
    rw [map_append, map_cons, hmark hdigits.1, hmark hdigits.2,
      show (if p = ',' then '.' else p) = '.' by rcases hp with rfl | rfl <;> rfl]
    exact splitOn_pair (notMem_of_isDigit hdigits.1 rfl) (notMem_of_isDigit hdigits.2 rfl)
  have hone {cs : List Char} (hne : cs ≠ []) (hcs : ∀ c ∈ cs, c.isDigit) :
      (!cs.isEmpty && cs.all Char.isDigit) = true := by
    simpa [hne] using hcs
  have hall : [hs, ms, ds, es].all fun ds => !ds.isEmpty && ds.all Char.isDigit := by
    simp only [all_cons, all_nil, hone hhs.nonempty hhs.digits, hone hms.nonempty hms.digits,
      hone hds hdigits.1, hone hes hdigits.2, Bool.and_self]
  simp only [Fields.ofParts?, hsplit]
  rw [if_pos hall, hhs.value, hms.value, hsecs.value]

theorem fields?_long (hcode : code.toList = hs ++ ':' :: (ms ++ ':' :: (ds ++ p :: es)))
    (hhs : Spells hs h) : fields? code = some ⟨h, m, n, es.length⟩ := by
  have hparts : code.toList.splitOn ':' = [hs, ms, ds ++ p :: es] := by
    rw [hcode]
    exact splitOn_triple (notMem_of_isDigit hhs.digits rfl) (notMem_of_isDigit hms.digits rfl)
      (colon_notMem hsecs hp)
  simp only [fields?, hparts]
  exact ofParts?_of_spells hp hms hsecs hds hes hhs

theorem fields?_short (hcode : code.toList = ms ++ ':' :: (ds ++ p :: es)) :
    fields? code = some ⟨0, m, n, es.length⟩ := by
  have hparts : code.toList.splitOn ':' = [ms, ds ++ p :: es] := by
    rw [hcode]
    exact splitOn_pair (notMem_of_isDigit hms.digits rfl) (colon_notMem hsecs hp)
  simp only [fields?, hparts]
  exact ofParts?_of_spells hp hms hsecs hds hes (spells_digitChar (n := 0) (by decide))

end

theorem fields?_unsigned_subtitle (f : SubtitleFormat) {hours minutes m : Nat} {y : Float} {e : Int}
    (hclass : classify y = .finite false m e) :
    fields? (f.timeFormat.unsigned ⟨hours, minutes, y⟩) =
      some ⟨hours, minutes, fixedUnits f.places (scaled m e), f.places⟩ := by
  have hplaces : 0 < f.places := by cases f <;> decide
  obtain ⟨ds, es, hsecs, hds, hes, hspells⟩ :=
    @toList_secondsText_of_classify f.places hplaces ⟨hours, minutes, y⟩ m e hclass
  have hes' : es ≠ [] := ne_nil_of_length_pos (hes ▸ hplaces)
  have hpoint : f.point = '.' ∨ f.point = ',' := by cases f <;> decide
  have htext := SubtitleFormat.toList_unsigned hsecs hspells
  have hminutes := spells_twoDigits minutes
  split at htext
  · next hnone =>
    rw [fields?_short hpoint hminutes hspells hds hes' htext, hes, hnone.2]
  · rw [fields?_long hpoint hminutes hspells hds hes' htext (SubtitleFormat.hoursText_spells hours),
      hes]

theorem fields?_unsigned_standard {hours minutes m : Nat} {y : Float} {e : Int}
    (hclass : classify y = .finite false m e) :
    fields? (standard.unsigned ⟨hours, minutes, y⟩) =
      some ⟨hours, minutes, fixedUnits 3 (scaled m e), 3⟩ := by
  obtain ⟨ds, es, hsecs, hds, hes, hspells⟩ :=
    @toList_secondsText_of_classify 3 (by norm_num) ⟨hours, minutes, y⟩ m e hclass
  have hes' : es ≠ [] := ne_nil_of_length_pos (by omega)
  have htext := toList_unsigned_standard hsecs
  rw [fields?_long (.inl rfl) (spells_twoDigits minutes) hspells hds hes' htext
    (spells_twoDigits hours), hes]

theorem round_lt_iff {y : Rat} {n : Int} (hn : Even n) : Exact.round y < n ↔ y < n - 1 / 2 := by
  obtain ⟨hlo, hhi⟩ := abs_le.1 (abs_round_sub_le y)
  constructor
  · intro h
    have hle : (Exact.round y : Rat) ≤ n - 1 := by exact_mod_cast Int.le_sub_one_of_lt h
    refine lt_of_le_of_ne (by linarith) fun heq => ?_
    have hround : Exact.round y = n := by
      refine round_eq_of ?_ fun _ => Int.even_iff.1 hn
      rw [heq, sub_sub_cancel, abs_of_pos (by norm_num)]
    omega
  · intro h
    have hlt : (Exact.round y : Rat) < n := by linarith
    exact_mod_cast hlt

theorem fixedUnits_lt_sixty_iff (places : Nat) {r : Rat} (hr : 0 ≤ r) :
    fixedUnits places r < 60 * 10 ^ places ↔ r < 60 - 1 / (2 * 10 ^ places) := by
  have hpow : (0 : Rat) < 10 ^ places := by positivity
  have heven : Even (60 * 10 ^ places : Int) := (by decide : Even (60 : Int)).mul_right _
  rw [← Int.ofNat_lt, fixedUnits_eq_round places hr]
  push_cast
  rw [round_lt_iff heven]
  push_cast
  rw [← mul_lt_mul_iff_left₀ hpow (b := r)]
  have hunit : (60 - 1 / (2 * 10 ^ places) : Rat) * 10 ^ places = 60 * 10 ^ places - 1 / 2 := by
    field_simp
  rw [hunit]

theorem abs_round_sub_le_iff {y z : Rat} (h : |y - z| < 1) :
    |(Exact.round y : Rat) - z| ≤ 1 / 2 ↔ Exact.round y = Exact.round z ∨ Int.fract z = 1 / 2 := by
  constructor
  · intro hy
    refine or_iff_not_imp_left.2 fun hne => Int.fract_eq_iff.2 ⟨by norm_num, by norm_num, ?_⟩
    obtain ⟨hylo, hyhi⟩ := abs_le.1 hy
    obtain ⟨hzlo, hzhi⟩ := abs_le.1 (abs_round_sub_le z)
    rcases lt_or_gt_of_ne hne with hlt | hlt
    · have hle : (Exact.round y + 1 : Rat) ≤ Exact.round z := by exact_mod_cast hlt
      exact ⟨Exact.round y, by linarith⟩
    · have hle : (Exact.round z + 1 : Rat) ≤ Exact.round y := by exact_mod_cast hlt
      exact ⟨Exact.round z, by linarith⟩
  · rintro (heq | htie)
    · rw [heq]
      exact abs_round_sub_le z
    · obtain ⟨-, -, k, hk⟩ := Int.fract_eq_iff.1 htie
      obtain ⟨hlo, hhi⟩ := abs_lt.1 h
      obtain ⟨hylo, hyhi⟩ := abs_le.1 (abs_round_sub_le y)
      have hlow : (k : Rat) < Exact.round y + 1 := by linarith
      have hhigh : (Exact.round y : Rat) < k + 1 + 1 := by linarith
      have hlow' : (k : Rat) ≤ Exact.round y := by
        exact_mod_cast Int.le_of_lt_add_one (by exact_mod_cast hlow)
      have hhigh' : (Exact.round y : Rat) ≤ k + 1 := by
        exact_mod_cast Int.le_of_lt_add_one (by exact_mod_cast hhigh)
      exact abs_le.2 ⟨by linarith, by linarith⟩

theorem abs_decimal_sub_le_iff {places : Nat} (hplaces : places ≤ 3) {r : Rat} (hr : 0 ≤ r)
    (hr' : r ≤ 60) :
    |(fixedUnits places (nearest r) / 10 ^ places : Rat) - r| ≤ 1 / (2 * 10 ^ places) ↔
      fixedUnits places (Exact.nearest r) = fixedUnits places r ∨ Int.fract (r * 10 ^ places) = 1 / 2 := by
  have hpow : (0 : Rat) < 10 ^ places := by positivity
  have hpow' : (10 : Rat) ^ places ≤ 10 ^ 3 := pow_le_pow_right₀ (by norm_num) hplaces
  have hnear : |nearest r - r| ≤ 60 / 2 ^ 53 :=
    abs_nearest_sub_le (by rwa [abs_of_nonneg hr]) (two_zpow_neg_le_one.trans (by norm_num))
  have hclose : |nearest r * 10 ^ places - r * 10 ^ places| < 1 := by
    rw [← sub_mul, abs_mul, abs_of_pos hpow]
    calc |nearest r - r| * 10 ^ places ≤ 60 / 2 ^ 53 * 10 ^ 3 := by gcongr
      _ < 1 := by norm_num
  have hround := abs_round_sub_le_iff hclose
  rw [← fixedUnits_eq_round _ (nearest_nonneg hr), ← fixedUnits_eq_round _ hr, Int.cast_natCast,
    Int.ofNat_inj] at hround
  generalize fixedUnits places (nearest r) = n at *
  have hscale : (n : Rat) - r * 10 ^ places = (n / 10 ^ places - r) * 10 ^ places := by field_simp
  rw [← hround, hscale, abs_mul, abs_of_pos hpow, ← le_div_iff₀ hpow, div_div]

/-- What is written for a time: the seconds are rounded when the hours and minutes are already known. -/
def Fields.ofTime (places : Nat) (q : Rat) : Fields :=
  ⟨⌊q / 60⌋₊ / 60, ⌊q / 60⌋₊ % 60, fixedUnits places (nearest (q - 60 * ⌊q / 60⌋₊)), places⟩

theorem Fields.ofTime_time_sub (places : Nat) (q : Rat) :
    (ofTime places q).time - q =
      fixedUnits places (nearest (q - 60 * ⌊q / 60⌋₊)) / 10 ^ places - (q - 60 * ⌊q / 60⌋₊) := by
  have hsplit : (⌊q / 60⌋₊ : Rat) = (60 * (⌊q / 60⌋₊ / 60) + ⌊q / 60⌋₊ % 60 : Nat) := by
    rw [Nat.div_add_mod]
  push_cast at hsplit
  rw [time, ofTime]
  linarith

theorem Fields.ofTime_units_le (places : Nat) (hq : 0 ≤ q) :
    (ofTime places q).units ≤ 60 * 10 ^ places := by
  obtain ⟨hlo, hhi⟩ := seconds_bounds hq
  have hsixty : OnGrid 60 := ⟨60, 0, by norm_num, by norm_num, by norm_num⟩
  rw [ofTime, ← Int.ofNat_le, fixedUnits_eq_round _ (nearest_nonneg hlo)]
  refine round_le_of_le ?_
  push_cast
  exact mul_le_mul_of_nonneg_right (nearest_le_of_le hsixty hhi.le) (by positivity)

theorem Fields.ofTime_canonical_iff {places : Nat} (hplaces : places ≤ 3) (hq : 0 ≤ q) :
    (ofTime places q).Canonical q ↔
      Exact.nearest (q - 60 * ⌊q / 60⌋₊) < 60 - 1 / (2 * 10 ^ places) ∧
        (fixedUnits places (nearest (q - 60 * ⌊q / 60⌋₊)) =
            fixedUnits places (q - 60 * ⌊q / 60⌋₊) ∨
          Int.fract ((q - 60 * ⌊q / 60⌋₊) * 10 ^ places) = 1 / 2) := by
  obtain ⟨hlo, hhi⟩ := seconds_bounds hq
  rw [← fixedUnits_lt_sixty_iff places (nearest_nonneg hlo), ← abs_decimal_sub_le_iff hplaces hlo hhi.le,
    ← ofTime_time_sub]
  exact ⟨fun h => ⟨h.seconds, h.near⟩, fun h => ⟨Nat.mod_lt _ (by norm_num), h.1, h.2⟩⟩

theorem exists_timecode {format : String}
    (hformat : format ∈ ["webvtt", "mov_text", "standard", "ass"]) (hq : 0 ≤ q) :
    ∃ code, (timecode (.frac q) format =
        if isWritable (⌊q / 60⌋₊ / 60 : Nat) then .ok code else .error .badValue) ∧
      fields? code = some (.ofTime (if format = "ass" then 2 else 3) q) := by
  obtain ⟨y, hy, hclock⟩ := ofSeconds_frac hq
  obtain ⟨m, e, hclass, hvalue⟩ := classify_of_toFloat? hy (seconds_bounds hq).1
  have hsign : (frac q).lt 0 = false := by
    rw [Bool.eq_false_iff, ne_eq, lt_zero_iff rfl]
    exact hq.not_gt
  have hcode {f : TimeFormat} (hname : named? format = some f) : timecode (.frac q) format =
      if isWritable (⌊q / 60⌋₊ / 60 : Nat) then
        .ok (f.unsigned ⟨(⌊q / 60⌋₊ / 60 : Nat), (⌊q / 60⌋₊ % 60 : Nat), y⟩)
      else .error .badValue := by
    simp only [timecode, hsign, Bool.false_eq_true, if_false, hclock, ok_bind, hname, String.empty_append]
    rfl
  rw [Fields.ofTime, ← hvalue]
  simp only [mem_cons, not_mem_nil, or_false] at hformat
  rcases hformat with rfl | rfl | rfl | rfl
  · exact ⟨_, hcode (f := .webvtt) rfl, fields?_unsigned_subtitle .webvtt hclass⟩
  · exact ⟨_, hcode (f := .movText) rfl, fields?_unsigned_subtitle .movText hclass⟩
  · exact ⟨_, hcode (f := .standard) rfl, fields?_unsigned_standard hclass⟩
  · exact ⟨_, hcode (f := .ass) rfl, fields?_unsigned_subtitle .ass hclass⟩

/-- A time code is canonical exactly if the seconds, as the nearest binary64 number, are less than
sixty by more than half a unit, and the decimal of that number is the one of the exact seconds. -/
theorem timecode_canonical_iff {format : String}
    (hformat : format ∈ ["webvtt", "mov_text", "standard", "ass"]) (hq : 0 ≤ q) :
    (10 ^ digitLimit ≤ ⌊q / 3600⌋₊ → timecode (.frac q) format = .error .badValue) ∧
    (⌊q / 3600⌋₊ < 10 ^ digitLimit → ∃ code t, timecode (.frac q) format = .ok code ∧
      fields? code = some t ∧ t.places = (if format = "ass" then 2 else 3) ∧ t.minutes < 60 ∧
      t.units ≤ 60 * 10 ^ t.places ∧ |t.time - q| ≤ 1 / (2 * 10 ^ t.places) + 60 / 2 ^ 53 ∧
      (t.Canonical q ↔ Exact.nearest (q - 60 * ⌊q / 60⌋₊) < 60 - 1 / (2 * 10 ^ t.places) ∧
        (fixedUnits t.places (nearest (q - 60 * ⌊q / 60⌋₊)) =
            fixedUnits t.places (q - 60 * ⌊q / 60⌋₊) ∨
          Int.fract ((q - 60 * ⌊q / 60⌋₊) * 10 ^ t.places) = 1 / 2))) := by
  obtain ⟨code, hcode, hread⟩ := exists_timecode hformat hq
  have hhours : ⌊q / 3600⌋₊ = ⌊q / 60⌋₊ / 60 := by
    rw [← Nat.floor_div_ofNat, div_div]
    norm_num
  rw [hhours, hcode]
  refine ⟨fun hlong => if_neg (by rwa [isWritable_natCast, not_lt]), fun hshort => ?_⟩
  obtain ⟨hlo, hhi⟩ := seconds_bounds hq
  refine ⟨code, _, if_pos (isWritable_natCast.2 hshort), hread, rfl, Nat.mod_lt _ (by norm_num),
    Fields.ofTime_units_le _ hq, ?_, Fields.ofTime_canonical_iff (by split <;> norm_num) hq⟩
  rw [Fields.ofTime_time_sub]
  exact abs_decimal_sub_le _ hlo hhi.le

theorem timecode_canonical_iff_half : ∃ code t, timecode (.frac (119 / 2)) "mov_text" = .ok code ∧
    fields? code = some t ∧ t.Canonical (119 / 2) := by
  have hzero {n : Rat} (hn : 60 ≤ n) : ⌊(119 / 2 : Rat) / n⌋₊ = 0 := by
    rw [Nat.floor_eq_zero, div_lt_one (by linarith)]
    linarith
  have hgrid : OnGrid (119 / 2) := ⟨119, -1, by norm_num, by norm_num, by norm_num⟩
  obtain ⟨-, hcode⟩ := @timecode_canonical_iff (119 / 2) "mov_text" (by simp) (by norm_num)
  obtain ⟨code, t, htext, hread, hplaces, -, -, -, hiff⟩ :=
    hcode (by rw [hzero (by norm_num)]; positivity)
  refine ⟨code, t, htext, hread, hiff.2 ?_⟩
  rw [hzero le_rfl, Nat.cast_zero, mul_zero, sub_zero, nearest_eq_self hgrid, hplaces, if_neg (by decide)]
  norm_num

/-- A time that is nearly a minute is written as sixty seconds. One that is little more than half a
thousandth is cut to less, since its nearest binary64 number is below the half. -/
theorem timecode_sixty_seconds :
    (timecode (.frac (149999 / 2500)) "standard" = .ok "00:00:60.000" ∧
      fields? "00:00:60.000" = some ⟨0, 0, 60000, 3⟩) ∧
    timecode (.frac (9 / 2000 + 1 / 10 ^ 20)) "standard" = .ok "00:00:00.004" := by
  refine ⟨⟨eq_ok_of_toOption ?_, rfl⟩, eq_ok_of_toOption ?_⟩
  · decide +kernel
  · decide +kernel

end TimeFormat

end Jumpcut
