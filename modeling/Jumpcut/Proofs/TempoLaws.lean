import Jumpcut.Proofs.ArithmeticLaws
import Jumpcut.Proofs.OutcomeLaws
import Jumpcut.Render.Sound
import Mathlib.Algebra.BigOperators.Group.List.Basic

namespace Jumpcut

open Exact Number List Outcome

namespace Exact

theorem onGrid_two_zpow {e : Int} (h : -1074 ≤ e) : OnGrid (2 ^ e) :=
  ⟨1, e, by norm_num, h, by norm_num⟩

theorem OnGrid.mul_two_pow {q : Rat} (h : OnGrid q) (n : Nat) : OnGrid (q * 2 ^ n) := by
  obtain ⟨m, e, hm, he, rfl⟩ := h
  refine ⟨m, n + e, hm, by omega, ?_⟩
  rw [mul_assoc, mul_comm (2 ^ e), two_pow_mul_zpow]

theorem onGrid_nearest {q : Rat} (h : |q| ≤ largest) : OnGrid (nearest q) := by
  obtain ⟨x, -, hx⟩ := nearestFloat_ok h
  exact onGrid_of_ofFloat? hx

theorem two_mul_nearest_ne {q : Rat} (hq : 0 < q) (h : |q| ≤ largest) : 2 * nearest q ≠ q := by
  intro heq
  have hgrid : OnGrid q := by
    have := (onGrid_nearest h).mul_two_pow 1
    rwa [pow_one, mul_comm, heq] at this
  rw [nearest_eq_self hgrid] at heq
  linarith

end Exact

namespace Number

theorem div_float_ok {x : Number} {y : Float} {a b : Rat} (hx : x.toRat? = some a)
    (hy : ofFloat? y = some b) (hb : b ≠ 0) (ha : |a| ≤ largest)
    (hrange : |nearest a / b| ≤ largest) :
    ∃ z, x.div (.float y) = .ok (.float z) ∧ ofFloat? z = some (nearest (nearest a / b)) := by
  obtain ⟨f, hf, hvalue⟩ := toFloat_ok hx ha
  refine ⟨f / y, ?_, ?_⟩
  · have hzero := beq_zero_of_ne hy hb
    cases x with
    | complex re im => cases hx
    | int i =>
      change (do let a ← (int i).toFloat; if y == 0.0 then _ else pure _) = _
      rw [hf, ok_bind, if_neg (by simp [hzero])]
      rfl
    | frac q =>
      change (do let a ← (frac q).toFloat; if y == 0.0 then _ else pure _) = _
      rw [hf, ok_bind, if_neg (by simp [hzero])]
      rfl
    | float g =>
      change (do let a ← (float g).toFloat; if y == 0.0 then _ else pure _) = _
      rw [hf, ok_bind, if_neg (by simp [hzero])]
      rfl
  · rw [ofFloat?_div hvalue hy hb, inRange?_nearest hrange]

end Number

namespace AudioClip

theorem halvings_bounds (s : Rat) (most k : Nat) (hs : s < 1 / 2 ^ k) :
    halvings s most (1 / 2 ^ k) ≤ most ∧ s < 1 / 2 ^ (halvings s most (1 / 2 ^ k) + k) ∧
      (halvings s most (1 / 2 ^ k) < most → 1 / 2 ^ (halvings s most (1 / 2 ^ k) + k + 1) ≤ s) := by
  induction most generalizing k with
  | zero => simpa [halvings] using hs
  | succ most ih =>
    have hhalf : (1 : Rat) / 2 ^ k / 2 = 1 / 2 ^ (k + 1) := by rw [pow_succ, div_div]
    rw [halvings, hhalf]
    split
    · rename_i hlt
      obtain ⟨hle, hbelow, habove⟩ := ih (k + 1) hlt
      rw [show ∀ n, n + 1 + k = n + (k + 1) by omega]
      exact ⟨by omega, hbelow, fun h => habove (by omega)⟩
    · rename_i hge
      rw [Nat.zero_add]
      exact ⟨Nat.zero_le _, hs, fun _ => not_lt.1 hge⟩

theorem toRat?_half : (float 0.5).toRat? = some (1 / 2) := by decide +kernel

theorem tempoFactors_slow {speed : Number} {s : Rat} (h : speed.toRat? = some s) (hpos : 0 < s)
    (hs : s < 1 / 2) : ∃ (n : Nat) (z : Float),
      tempoFactors speed = .ok (replicate n (.float 0.5) ++ [.float z]) ∧
      ofFloat? z = some (nearest s * 2 ^ (n + 1)) ∧ nearest s * 2 ^ (n + 1) ≤ 1 ∧
      (2 ^ (-1074 : Int) ≤ s → 1 / 2 ≤ nearest s * 2 ^ (n + 1)) := by
  have hbounds := halvings_bounds s mostHalvings 1 (by simpa using hs)
  rw [pow_one] at hbounds
  generalize hn : halvings s mostHalvings (1 / 2) = n at hbounds
  obtain ⟨hle, hbelow, habove⟩ := hbounds
  have hmost : n ≤ 1073 := hle
  have hpow : ∀ k : Nat, (1 : Rat) / 2 ^ k = 2 ^ (-(k : Int)) := by simp
  have hgrid : OnGrid (1 / 2 ^ (n + 1) : Rat) := by
    rw [hpow]
    exact onGrid_two_zpow (by omega)
  have hsmall : |s| ≤ largest := le_largest (by rw [abs_of_pos hpos]; linarith)
  have hupper : nearest s ≤ 1 / 2 ^ (n + 1) := nearest_le_of_le hgrid hbelow.le
  have hlast : nearest s * 2 ^ (n + 1) ≤ 1 := by
    rwa [le_div_iff₀ (by positivity)] at hupper
  have hexact : nearest s / (1 / 2 ^ (n + 1)) = nearest s * 2 ^ (n + 1) := by
    rw [div_div_eq_mul_div, div_one]
  -- A power of two scales a binary64 number without rounding, so the quotient is exact.
  have hone : (1 : Rat) / 2 ^ (n + 1) ≤ 2 ^ 53 :=
    (div_le_one_of_le₀ (one_le_pow₀ (by norm_num)) (by positivity)).trans (by norm_num)
  obtain ⟨start, hstart, hvalue⟩ :=
    @toFloat?_ok (1 / 2 ^ (n + 1)) (le_largest (by rwa [abs_of_pos (by positivity)]))
  rw [nearest_eq_self hgrid] at hvalue
  have hnonneg : 0 ≤ nearest s * 2 ^ (n + 1) :=
    mul_nonneg (nearest_nonneg hpos.le) (by positivity)
  obtain ⟨z, hz, hzvalue⟩ := div_float_ok h hvalue (by positivity) hsmall (le_largest (by
    rw [hexact, abs_of_nonneg hnonneg]
    exact hlast.trans (by norm_num)))
  rw [hexact, nearest_eq_self ((onGrid_nearest hsmall).mul_two_pow _)] at hzvalue
  refine ⟨n, z, ?_, hzvalue, hlast, ?_⟩
  · have hnot : ¬ le (.float 0.5) speed = true := by
      rw [le_iff_of_toRat? toRat?_half h]
      exact not_le.2 hs
    simp only [tempoFactors, if_neg hnot, h, Option.map_some, Option.getD_some, hn, hstart, hz,
      ok_bind]
    rfl
  · intro hlow
    have hroom : n < mostHalvings := by
      by_contra hfull
      have : n = 1073 := le_antisymm hmost (not_lt.1 hfull)
      rw [hpow, this] at hbelow
      exact hbelow.not_ge hlow
    have hlower : 1 / 2 ^ (n + 1 + 1) ≤ nearest s := by
      refine le_nearest_of_le ?_ (habove hroom)
      rw [hpow]
      exact onGrid_two_zpow (by have : n < 1073 := hroom; omega)
    calc (1 : Rat) / 2 = 1 / 2 ^ (n + 1 + 1) * 2 ^ (n + 1) := by rw [pow_succ 2 (n + 1)]; field_simp
      _ ≤ nearest s * 2 ^ (n + 1) := by gcongr

theorem filters_eq {c : AudioClip} {s : Rat} (h : c.speed.toRat? = some s) (h100 : s ≤ 100)
    (hone : s ≠ 1) : c.filters = do
      return (← (← tempoFactors c.speed).mapM text).map ("atempo=" ++ ·) ++
        c.volumeFilters := by
  have hchange : ¬ c.speed.eqv 1 = true := by
    rw [eqv_iff_of_toRat? h (toRat?_ofNat 1)]
    exact_mod_cast hone
  have hfast : ¬ lt 10000 c.speed = true := by
    rw [lt_iff_of_toRat? (toRat?_ofNat 10000) h]
    push_cast
    linarith
  have hquick : ¬ lt 100 c.speed = true := by
    rw [lt_iff_of_toRat? (toRat?_ofNat 100) h]
    push_cast
    linarith
  rw [filters, tempoFilters, if_neg hchange, if_neg hfast, if_neg hquick]
  simp only [bind_assoc, pure_bind]

/-- What a clip is played at, for every exact speed up to a hundred: the factors make up the speed,
each within the range that a filter takes, exactly from one half up; below one half they make up
twice the speed. -/
theorem tempo_factors_iff {c : AudioClip} {s : Rat} (h : c.speed.toRat? = some s) (hpos : 0 < s)
    (h100 : s ≤ 100) (hone : s ≠ 1) : ∃ (factors : List Number) (values : List Rat),
      tempoFactors c.speed = .ok factors ∧
      c.filters = (do
        return (← factors.mapM text).map ("atempo=" ++ ·) ++ c.volumeFilters) ∧
      factors.map toRat? = values.map some ∧
      ((∀ q ∈ values, 1 / 2 ≤ q ∧ q ≤ 100) ∧ values.prod = s ↔ 1 / 2 ≤ s) ∧
      (s < 1 / 2 → values.prod = 2 * nearest s ∧
        (2 ^ (-1074 : Int) ≤ s → ∀ q ∈ values, 1 / 2 ≤ q ∧ q ≤ 1)) := by
  rw [filters_eq h h100 hone]
  rcases le_or_gt (1 / 2) s with hs | hs
  · have hhalf : le (.float 0.5) c.speed = true := (le_iff_of_toRat? toRat?_half h).2 hs
    refine ⟨[c.speed], [s], by rw [tempoFactors, if_pos hhalf], by rw [tempoFactors, if_pos hhalf]; rfl,
      by simp [h], by simp [h100], fun hlt => absurd hs hlt.not_ge⟩
  · obtain ⟨n, z, hfactors, hz, hle, hge⟩ := tempoFactors_slow h hpos hs
    have hprod : (replicate n (1 / 2 : Rat) ++ [nearest s * 2 ^ (n + 1)]).prod =
        2 * nearest s := by
      simp
      field_simp
      ring
    have hne : 2 * nearest s ≠ s :=
      two_mul_nearest_ne hpos (le_largest (by rw [abs_of_pos hpos]; linarith))
    refine ⟨_, replicate n (1 / 2) ++ [nearest s * 2 ^ (n + 1)], hfactors, by rw [hfactors]; rfl,
      ?_, ?_, ?_⟩
    · have hlast : (float z).toRat? = some (nearest s * 2 ^ (n + 1)) := hz
      rw [map_append, map_append, map_replicate, map_replicate, toRat?_half,
        map_singleton, map_singleton, hlast]
    · rw [hprod]
      exact ⟨fun hall => absurd hall.2 hne, fun hlow => absurd hlow hs.not_ge⟩
    · intro _
      refine ⟨hprod, fun hlow q hq => ?_⟩
      rcases mem_append.1 hq with hq | hq
      · rw [eq_of_mem_replicate hq]
        norm_num
      · rw [mem_singleton.1 hq]
        exact ⟨hge hlow, hle⟩

def fourTicks (speed : Number) : AudioClip :=
  { start := 0, dur := 4, src := .text "0", offset := 0, speed, volume := .number 1, stream := 0 }

theorem tempo_factors_iff_three_quarters : ∃ (factors : List Number) (values : List Rat),
    tempoFactors (.frac (3 / 4)) = .ok factors ∧ factors.map toRat? = values.map some ∧
      (∀ q ∈ values, 1 / 2 ≤ q ∧ q ≤ 100) ∧ values.prod = 3 / 4 := by
  obtain ⟨factors, values, hfactors, -, hvalues, hiff, -⟩ :=
    @tempo_factors_iff (fourTicks (.frac (3 / 4))) (3 / 4) rfl (by norm_num) (by norm_num)
      (by norm_num)
  obtain ⟨hall, hprod⟩ := hiff.2 (by norm_num)
  exact ⟨factors, values, hfactors, hvalues, hall, hprod⟩

theorem tempo_quarter_doubled :
    (fourTicks (.float 0.25)).filters = .ok ["atempo=0.5"] := by
  decide +kernel

end AudioClip

end Jumpcut
