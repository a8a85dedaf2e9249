import Jumpcut.Proofs.ClockLaws

namespace Jumpcut

open Exact Outcome Decimal SubtitleFormat Number

namespace Exact

theorem abs_mul_sub_le {t v g b d e : Rat} (ht : |t - v| ≤ d) (hg : |g - b| ≤ e) (hg' : 0 ≤ g)
    (hv : 0 ≤ v) : |t * g - v * b| ≤ d * g + v * e := by
  have hsplit : t * g - v * b = (t - v) * g + v * (g - b) := by ring
  rw [hsplit]
  refine (abs_add_le _ _).trans (add_le_add ?_ ?_)
  · rw [abs_mul, abs_of_nonneg hg']
    exact mul_le_mul_of_nonneg_right ht hg'
  · rw [abs_mul, abs_of_nonneg hv]
    exact mul_le_mul_of_nonneg_left hg hv

theorem abs_nearest_add_sub_le {w d : Rat} (hw : 0 ≤ w) (hd : 0 ≤ d) (hd' : d ≤ 61) :
    |nearest (nearest w + nearest d) - (w + d)| ≤ (201 / 100 * (w + d) + 63) / 2 ^ 53 := by
  have htiny := two_zpow_neg_le_one
  have hwhole : |nearest w - w| ≤ (w + 1) / 2 ^ 53 :=
    abs_nearest_sub_le (by rw [abs_of_nonneg hw]; linarith) (by linarith)
  have hpart : |nearest d - d| ≤ 61 / 2 ^ 53 :=
    abs_nearest_sub_le (by rwa [abs_of_nonneg hd]) (by linarith)
  have hw' := nearest_nonneg hw
  have hd'' := nearest_nonneg hd
  have hsum : |nearest (nearest w + nearest d) - (nearest w + nearest d)| ≤
      (101 / 100 * (w + d) + 1) / 2 ^ 53 := by
    apply abs_nearest_sub_le
    · rw [abs_of_nonneg (by linarith)]
      linarith [abs_le.1 hwhole, abs_le.1 hpart]
    · linarith
  rw [abs_le] at *
  constructor <;> linarith

theorem abs_nearest_ticks_sub_le {w d tb : Rat} (hw : 0 ≤ w) (hd : 0 ≤ d) (hd' : d ≤ 61) (htb : 0 < tb)
    (htb' : tb ≤ 60) (hlarge : w + d ≤ 2 ^ 201) :
    |nearest (nearest (nearest w + nearest d) * nearest tb) - (w + d) * tb| ≤
      5 * ((w + d) * tb + 1000) / 2 ^ 53 := by
  have hsum := abs_nearest_add_sub_le hw hd hd'
  generalize hv : w + d = v at *
  have hv0 : 0 ≤ v := by linarith
  have ht0 : 0 ≤ nearest (nearest w + nearest d) :=
    nearest_nonneg (add_nonneg (nearest_nonneg hw) (nearest_nonneg hd))
  generalize nearest (nearest w + nearest d) = t at *
  generalize hη : (2 : Rat) ^ (-1022 : Int) = η
  have hη0 : 0 < η := hη ▸ two_zpow_pos _
  have hvη : v * η ≤ 1 := by
    calc v * η ≤ 2 ^ 201 * 2 ^ (-1022 : Int) := by rw [hη]; gcongr
      _ ≤ 1 := by
        rw [two_pow_mul_zpow]
        exact zpow_le_one_of_nonpos₀ (by norm_num) (by norm_num)
  have hη1 : η ≤ 1 := hη ▸ two_zpow_neg_le_one
  have hbase : |nearest tb - tb| ≤ (tb + η) / 2 ^ 53 :=
    abs_nearest_sub_le (by rw [abs_of_pos htb]; linarith) (by rw [hη]; linarith)
  have hg0 := nearest_nonneg htb.le
  generalize nearest tb = g at *
  have hvtb : 0 ≤ v * tb := by positivity
  have hg : g ≤ 101 / 100 * tb + η := by linarith [(abs_le.1 hbase).2]
  have hprod : |t * g - v * tb| ≤ (304 / 100 * (v * tb) + 3900) / 2 ^ 53 := by
    refine (abs_mul_sub_le hsum hbase hg0 hv0).trans ?_
    have hscale : (201 / 100 * v + 63) / 2 ^ 53 * g ≤
        (201 / 100 * v + 63) / 2 ^ 53 * (101 / 100 * tb + η) :=
      mul_le_mul_of_nonneg_left hg (by positivity)
    linarith
  have hround : |nearest (t * g) - t * g| ≤ (101 / 100 * (v * tb) + 2) / 2 ^ 53 := by
    apply abs_nearest_sub_le
    · rw [abs_of_nonneg (by positivity)]
      linarith [(abs_le.1 hprod).2]
    · rw [hη]
      linarith
  rw [abs_le] at *
  constructor <;> linarith

end Exact

namespace SubtitleFormat

variable {f : SubtitleFormat}

theorem nearest_le_double {q : Rat} (hq : 0 ≤ q) : nearest q ≤ 2 * q + 1 := by
  have htiny := two_zpow_neg_le_one
  have herror : |nearest q - q| ≤ (q + 1) / 2 ^ 53 :=
    abs_nearest_sub_le (by rw [abs_of_nonneg hq]; linarith) (by linarith)
  linarith [(abs_le.1 herror).2]

theorem two_pow_250_le_largest : (2 : Rat) ^ 250 ≤ largest := by
  have hpow : (2 : Rat) ^ 250 ≤ 2 ^ (971 : Int) := by
    rw [← zpow_natCast]
    exact zpow_le_zpow_right₀ (by norm_num) (by norm_num)
  rw [cast_largest]
  exact hpow.trans (le_mul_of_one_le_left (two_zpow_pos _).le (by norm_num))

theorem ticks_eq {tb d : Rat} {hours minutes : Nat} {y : Float}
    (hy : ofFloat? y = some (nearest d)) (hd : 0 ≤ d) (htb : 0 < tb) (htb' : tb ≤ 60)
    (hlarge : (hours * 3600 + minutes * 60 : Nat) + d ≤ 2 ^ 201) :
    ticks tb hours minutes y = .ok (Exact.round (Exact.nearest (Exact.nearest
      (Exact.nearest (hours * 3600 + minutes * 60 : Nat) + Exact.nearest d) * Exact.nearest tb))) := by
  have hlim := two_pow_250_le_largest
  generalize hW : hours * 3600 + minutes * 60 = W at *
  have hW0 : (0 : Rat) ≤ W := Nat.cast_nonneg W
  obtain ⟨w, hw, hw'⟩ := @toFloat_ok (.int W) W rfl (by
    rw [abs_of_nonneg hW0]
    linarith)
  obtain ⟨g, hg, hg'⟩ := @toFloat_ok (.frac tb) tb rfl (by
    rw [abs_of_pos htb]
    linarith)
  have hW' := nearest_nonneg hW0
  have hW'' := nearest_le_double hW0
  have hd₁ := nearest_nonneg hd
  have hd₂ := nearest_le_double hd
  have ht₁ := nearest_nonneg (add_nonneg hW' hd₁)
  have ht₂ := nearest_le_double (add_nonneg hW' hd₁)
  have hg₁ := nearest_nonneg htb.le
  have hg₂ := nearest_le_double htb.le
  have hsum := ofFloat?_add hw' hy
  rw [inRange?_nearest] at hsum
  have hprod := ofFloat?_mul hsum hg'
  rw [inRange?_nearest] at hprod
  · have hwhole :
        add (.int (hours * 3600 + minutes * 60)) (.float y) = .ok (.float (w + y)) := by
      change ((int _).toFloat >>= fun a => .ok (float (a + y))) = _
      rw [show (hours * 3600 + minutes * 60 : Int) = (W : Int) by omega, hw]
      rfl
    have hticks : mul (.float (w + y)) (.frac tb) = .ok (.float ((w + y) * g)) := by
      change ((frac tb).toFloat >>= fun b => .ok (float ((w + y) * b))) = _
      rw [hg]
      rfl
    rw [ticks, hwhole, ok_bind, hticks, ok_bind, Number.round, Number.toIntBy]
    simp only [hprod]
  · rw [abs_of_nonneg (by positivity)]
    calc _ ≤ (2 : Rat) ^ 205 * 2 ^ 10 := by
          gcongr <;> linarith
      _ ≤ largest := (by norm_num : (2 : Rat) ^ 205 * 2 ^ 10 ≤ 2 ^ 250).trans hlim
  · rw [abs_of_nonneg (by positivity)]
    linarith

theorem round_eq_of_near {q : Rat} {n : Int} (h : |q - n| < 1 / 2) : Exact.round q = n := by
  rw [abs_sub_comm] at h
  exact round_eq_of h.le fun heq => absurd heq h.ne

section

variable {tb d : Rat} {hours minutes n : Nat} {y : Float} (hy : ofFloat? y = some (nearest d))
  (hd : 0 ≤ d) (hd' : d ≤ 61) (htb : 0 < tb) (htb' : tb ≤ 60)

include hy hd hd' htb htb'

theorem exists_ticks (hlarge : (hours * 3600 + minutes * 60 : Nat) + d ≤ 2 ^ 201) :
    ∃ q, ticks tb hours minutes y = .ok (round q) ∧
      |q - ((hours * 3600 + minutes * 60 : Nat) + d) * tb| ≤
        5 * (((hours * 3600 + minutes * 60 : Nat) + d) * tb + 1000) / 2 ^ 53 :=
  ⟨_, ticks_eq hy hd htb htb' hlarge,
    abs_nearest_ticks_sub_le (Nat.cast_nonneg _) hd hd' htb htb' hlarge⟩

theorem ticks_eq_of_near (hn : n ≤ 2 ^ 48) (hlong : n / tb ≤ 2 ^ 200)
    (hnear : |(hours * 3600 + minutes * 60 : Nat) + d - n / tb| ≤ 1 / 200 + 60 / 2 ^ 53) :
    ticks tb hours minutes y = .ok (n : Int) := by
  have hlarge : (hours * 3600 + minutes * 60 : Nat) + d ≤ 2 ^ 201 := by linarith [(abs_le.1 hnear).2]
  obtain ⟨q, hq, herror⟩ := exists_ticks hy hd hd' htb htb' hlarge
  generalize ((hours * 3600 + minutes * 60 : Nat) : Rat) + d = v at *
  have hscaled : |v * tb - n| ≤ (1 / 200 + 60 / 2 ^ 53) * 60 := by
    have heq : v * tb - n = (v - n / tb) * tb := by rw [sub_mul, div_mul_cancel₀ _ htb.ne']
    rw [heq, abs_mul, abs_of_pos htb]
    gcongr
  have hn' : (n : Rat) ≤ 2 ^ 48 := by exact_mod_cast hn
  rw [hq, round_eq_of_near]
  rw [abs_le] at herror hscaled
  rw [abs_lt, Int.cast_natCast]
  constructor <;> linarith

theorem ticks_ne_of_far (hn : 0 < n) (hshort : n / tb < 3600)
    (hfar : n / tb + 2999 ≤ (hours * 3600 + minutes * 60 : Nat) + d)
    (hfar' : (hours * 3600 + minutes * 60 : Nat) + d ≤ 2 ^ 20) :
    ticks tb hours minutes y ≠ .ok (n : Int) := by
  obtain ⟨q, hq, herror⟩ := exists_ticks hy hd hd' htb htb' (hfar'.trans (by norm_num))
  generalize ((hours * 3600 + minutes * 60 : Nat) : Rat) + d = v at *
  have htb₀ : (1 : Rat) / 3600 < tb := by
    have hone : (1 : Rat) ≤ n := by exact_mod_cast hn
    rw [div_lt_iff₀ htb] at hshort
    linarith
  have hscaled : n + 2999 * tb ≤ v * tb := by
    have := mul_le_mul_of_nonneg_right hfar htb.le
    rw [add_mul, div_mul_cancel₀ _ htb.ne'] at this
    exact this
  have hsmall : v * tb ≤ 2 ^ 20 * 60 := by gcongr
  intro h
  rw [hq] at h
  have hround := abs_round_sub_le q
  rw [Except.ok.inj h, Int.cast_natCast, abs_le] at hround
  linarith [(abs_le.1 herror).1]

end

/-- A time that is written for a tick is read as that tick, but for times from ten minutes up to an
hour in the format that leaves out the hours. -/
theorem tickOf_text_iff {tb : Rat} (htb : 0 < tb) (htb' : tb ≤ 60) {n : Nat} (hn : n ≤ 2 ^ 48)
    (hlong : n / tb ≤ 2 ^ 200) :
    ∃ text, f.timeFormat.text (.frac (n / tb)) = .ok text ∧
      (f.tickOf tb text = .ok (n : Int) ↔ ¬ (f = .webvtt ∧ 600 ≤ n / tb ∧ n / tb < 3600)) := by
  have hq : 0 ≤ n / tb := by positivity
  obtain ⟨text, d, y, htext, hd, hnear, hy, hread⟩ := tickOf_text (f := f) hq hlong tb
  refine ⟨text, htext, ?_⟩
  obtain ⟨hlo, hhi⟩ := ClockTime.seconds_bounds hq
  generalize ⌊n / tb / 60⌋₊ = m at *
  have hplaces : 1 / (2 * 10 ^ f.places : Rat) ≤ 1 / 200 := by cases f <;> norm_num [places]
  have hd' : d ≤ 61 := by linarith [(abs_le.1 hnear).2]
  have hclose {hours minutes : Nat} (h : hours * 3600 + minutes * 60 = m * 60) :
      |(hours * 3600 + minutes * 60 : Nat) + d - n / tb| ≤ 1 / 200 + 60 / 2 ^ 53 := by
    rw [h, Nat.cast_mul]
    refine (le_of_eq ?_).trans (hnear.trans (by linarith))
    congr 1
    push_cast
    ring
  rw [hread]
  split
  · next hshort =>
    have hm : m < 60 := by omega
    rcases lt_or_ge m 10 with hten | hten
    · have hten' : (m : Rat) + 1 ≤ 10 := by exact_mod_cast hten
      refine iff_of_true (ticks_eq_of_near hy hd hd' htb htb' hn hlong (hclose (by omega))) ?_
      rintro ⟨-, hlate, -⟩
      linarith
    · have hten' : (10 : Rat) ≤ m := by exact_mod_cast hten
      have hm' : (m : Rat) + 1 ≤ 60 := by exact_mod_cast hm
      have hn₀ : 0 < n := by
        rcases Nat.eq_zero_or_pos n with rfl | hpos
        · rw [Nat.cast_zero, zero_div] at hlo
          linarith
        · exact hpos
      have hfar : (m * 60 + 3000 : Rat) ≤ (m / 10 * 3600 + m % 10 * 60 : Nat) := by
        exact_mod_cast (show m * 60 + 3000 ≤ m / 10 * 3600 + m % 10 * 60 by omega)
      have hfar' : ((m / 10 * 3600 + m % 10 * 60 : Nat) : Rat) ≤ 30000 := by
        exact_mod_cast (show m / 10 * 3600 + m % 10 * 60 ≤ 30000 by omega)
      refine iff_of_false (ticks_ne_of_far hy hd hd' htb htb' hn₀ (by linarith) ?_ (by linarith)) ?_
      · linarith [(abs_le.1 hnear).1]
      · exact not_not.2 ⟨hshort.1, by linarith, by linarith⟩
  · next hhours =>
    refine iff_of_true (ticks_eq_of_near hy hd hd' htb htb' hn hlong (hclose (by omega))) ?_
    rintro ⟨hf, -, hearly⟩
    have hm : 60 ≤ m := by
      by_contra hlt
      exact hhours ⟨hf, by omega⟩
    have hm' : (60 : Rat) ≤ m := by exact_mod_cast hm
    linarith

theorem tickOf_text_iff_three_hours :
    ∃ text, webvtt.timeFormat.text (.frac ((324001 : Nat) / 30)) = .ok text ∧
      webvtt.tickOf 30 text = .ok 324001 := by
  obtain ⟨text, htext, hread⟩ :=
    @tickOf_text_iff .webvtt 30 (by norm_num) (by norm_num) 324001 (by norm_num) (by norm_num)
  exact ⟨text, htext, hread.2 (by norm_num)⟩

theorem tickOf_text_ten_minutes :
    (webvtt.timeFormat.text (.frac 600) = .ok "10:00.000" ∧
      webvtt.tickOf 1 "10:00.000" = .ok 3600) ∧
    (movText.timeFormat.text (.frac 9007199254740993) = .ok "2501999792983:36:33,000" ∧
      movText.tickOf 1 "2501999792983:36:33,000" = .ok 9007199254740992) := by
  decide +kernel

end SubtitleFormat

end Jumpcut
