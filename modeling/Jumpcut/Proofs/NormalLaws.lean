import Jumpcut.Number.Power
import Jumpcut.Proofs.OutcomeLaws
import Mathlib.Algebra.BigOperators.Group.List.Basic
import Mathlib.Algebra.Field.Rat
import Mathlib.Algebra.Order.Ring.Rat
import Mathlib.Data.Rat.Lemmas
import Mathlib.Tactic.Ring

/-!
Whole fractions. A number is normal if it is not a fraction that equals an integer. Quotients, roots
and remainders are; `foldlM_not_normal_iff` and `not_normal_pow` say when sums, differences, products
and powers are not.
-/
namespace Jumpcut

open Outcome

def Whole (q : Rat) : Prop := ∃ i : Int, q = i

namespace Number

def rational? : Number → Option Rat
  | .int i => some i
  | .frac q => some q
  | _ => none

def isFrac : Number → Bool
  | .frac _ => true
  | _ => false

/-- An integer or a fraction that equals an integer is stored as that integer. -/
def Normal (x : Number) : Prop := ∀ i : Int, x.rational? = some (i : Rat) → x = .int i

/-- Exact numbers, not all of them integers, that are combined to a whole number. -/
def Collapses (f : List Rat → Rat) (xs : List Number) : Prop :=
  ∃ qs, xs.mapM rational? = some qs ∧ xs.any isFrac ∧ Whole (f qs)

variable {x y z : Number} {xs : List Number} {q : Rat} {qs : List Rat}

theorem normal_of_isFrac (h : x.isFrac = false) : x.Normal := by
  intro i hi
  cases x with
  | int j => rw [Rat.intCast_injective (Option.some.inj hi)]
  | frac q => cases h
  | float => cases hi
  | complex => cases hi

@[simp] theorem normal_int (i : Int) : (int i).Normal := normal_of_isFrac rfl

@[simp] theorem normal_float (a : Float) : (float a).Normal := normal_of_isFrac rfl

@[simp] theorem normal_complex (a b : Float) : (complex a b).Normal := normal_of_isFrac rfl

@[simp] theorem normal_frac : (frac q).Normal ↔ ¬ Whole q := by
  constructor
  · rintro h ⟨i, rfl⟩
    cases h i rfl
  · intro h i hi
    exact absurd ⟨i, Option.some.inj hi⟩ h

theorem not_normal_iff : ¬ x.Normal ↔ x.isFrac ∧ ∃ r, x.rational? = some r ∧ Whole r := by
  cases x with
  | frac q => simp [isFrac, rational?]
  | _ => simp [isFrac]

theorem isFrac_of_rational? (h : x.rational? = none) : x.isFrac = false := by
  cases x with
  | int => cases h
  | frac => cases h
  | float => rfl
  | complex => rfl

theorem normal_simplify (q : Rat) : (simplify q).Normal := by
  rw [simplify]
  split
  · exact normal_int _
  · next hden =>
    rw [normal_frac]
    rintro ⟨i, rfl⟩
    exact hden (Rat.den_intCast i)

theorem Normal.neg (h : x.Normal) : x.neg.Normal := by
  cases x with
  | frac q =>
    rw [Number.neg, normal_frac]
    rintro ⟨i, hi⟩
    exact normal_frac.1 h ⟨-i, by rw [Int.cast_neg, ← hi, neg_neg]⟩
  | _ => exact normal_of_isFrac rfl

theorem Normal.abs (h : x.Normal) : x.abs.Normal := by
  cases x with
  | frac q =>
    rw [Number.abs]
    split
    · exact h.neg
    · exact h
  | _ => exact normal_of_isFrac rfl

theorem Normal.realPart (h : x.Normal) : x.realPart.Normal := by
  cases x with
  | complex a b => exact normal_float a
  | _ => exact h

theorem normal_imagPart (x : Number) : x.imagPart.Normal := by
  cases x with
  | _ => exact normal_of_isFrac rfl

theorem mapM_cons_eq_some {rs : List Rat} : (x :: xs).mapM rational? = some rs ↔
    ∃ q qs, x.rational? = some q ∧ xs.mapM rational? = some qs ∧ q :: qs = rs := by
  simp [List.mapM_cons, Option.bind_eq_some_iff]

theorem exists_mem_of_mapM (h : xs.mapM rational? = none) : ∃ y ∈ xs, y.rational? = none := by
  induction xs with
  | nil => cases h
  | cons y ys ih =>
    rw [List.exists_mem_cons_iff]
    cases hy : y.rational? with
    | none => exact .inl rfl
    | some r =>
      cases hys : ys.mapM rational? with
      | none => exact .inr (ih hys)
      | some rs =>
        rw [mapM_cons_eq_some.2 ⟨r, rs, hy, hys, rfl⟩] at h
        cases h

theorem collapses_cons_iff {f : List Rat → Rat} : Collapses f (x :: xs) ↔
    ∃ q qs, x.rational? = some q ∧ xs.mapM rational? = some qs ∧ (x.isFrac || xs.any isFrac) ∧
      Whole (f (q :: qs)) := by
  constructor
  · rintro ⟨rs, hrs, hfrac, hwhole⟩
    obtain ⟨q, qs, hq, hqs, rfl⟩ := mapM_cons_eq_some.1 hrs
    exact ⟨q, qs, hq, hqs, hfrac, hwhole⟩
  · rintro ⟨q, qs, hq, hqs, hfrac, hwhole⟩
    exact ⟨q :: qs, mapM_cons_eq_some.2 ⟨q, qs, hq, hqs, rfl⟩, hfrac, hwhole⟩

section Lift

variable {exact : Rat → Rat → Rat} {onInt : Int → Int → Int} {onFloat : Float → Float → Float}
  {onComplex : Float × Float → Float × Float → Float × Float}

theorem lift_inexact (h : lift exact onInt onFloat onComplex x y = .ok z)
    (hxy : x.rational? = none ∨ y.rational? = none) : z.rational? = none := by
  rw [lift.eq_def] at h
  split at h
  -- Two exact numbers are among the first four cases; the others end in an inexact one.
  · simp [rational?] at hxy
  · simp [rational?] at hxy
  · simp [rational?] at hxy
  · simp [rational?] at hxy
  all_goals
    simp only [bind_eq_ok, pure_eq_ok] at h
  · obtain ⟨c, -, rfl⟩ := h
    rfl
  · obtain ⟨c, -, rfl⟩ := h
    rfl
  · obtain ⟨a, -, b, -, rfl⟩ := h
    rfl

theorem lift_exact (hint : ∀ a b : Int, exact a b = onInt a b) {a b : Rat}
    (hx : x.rational? = some a) (hy : y.rational? = some b) :
    ∃ z, lift exact onInt onFloat onComplex x y = .ok z ∧ z.rational? = some (exact a b) ∧
      z.isFrac = (x.isFrac || y.isFrac) := by
  cases x with
  | float => cases hx
  | complex => cases hx
  | int i =>
    cases hx
    cases y with
    | int j => cases hy; exact ⟨_, rfl, by rw [hint]; rfl, rfl⟩
    | frac q => cases hy; exact ⟨_, rfl, rfl, rfl⟩
    | float => cases hy
    | complex => cases hy
  | frac p =>
    cases hx
    cases y with
    | int j => cases hy; exact ⟨_, rfl, rfl, rfl⟩
    | frac q => cases hy; exact ⟨_, rfl, rfl, rfl⟩
    | float => cases hy
    | complex => cases hy

theorem Normal.lift_int {n : Int} (hx : x.Normal) (hwhole : ∀ a, Whole (exact a n) → Whole a)
    (h : lift exact onInt onFloat onComplex x (.int n) = .ok z) : z.Normal := by
  cases x with
  | int i =>
    cases h
    exact normal_int _
  | frac q =>
    cases h
    exact normal_frac.2 (mt (hwhole q) (normal_frac.1 hx))
  | _ => exact normal_of_isFrac (isFrac_of_rational? (lift_inexact h (.inl rfl)))

theorem foldlM_exact (hint : ∀ a b : Int, exact a b = onInt a b) (hx : x.rational? = some q)
    (hxs : xs.mapM rational? = some qs) :
    ∃ z, xs.foldlM (lift exact onInt onFloat onComplex) x = .ok z ∧
      z.rational? = some (qs.foldl exact q) ∧ z.isFrac = (x.isFrac || xs.any isFrac) := by
  induction xs generalizing x q qs with
  | nil =>
    cases hxs
    exact ⟨x, rfl, hx, by simp⟩
  | cons y ys ih =>
    obtain ⟨r, rs, hy, hys, rfl⟩ := mapM_cons_eq_some.1 hxs
    obtain ⟨w, hw, hvalue, hkind⟩ := lift_exact hint hx hy
    obtain ⟨z, hz, hvalue', hkind'⟩ := ih hvalue hys
    refine ⟨z, ?_, hvalue', ?_⟩
    · rw [List.foldlM_cons, hw]
      exact hz
    · rw [hkind', hkind, List.any_cons, Bool.or_assoc]

theorem foldlM_inexact {f : Number → Number → Except Fault Number}
    (hf : ∀ {x y z}, f x y = .ok z → x.rational? = none ∨ y.rational? = none → z.rational? = none)
    (h : xs.foldlM f x = .ok z) (hxs : x.rational? = none ∨ ∃ y ∈ xs, y.rational? = none) :
    z.rational? = none := by
  induction xs generalizing x with
  | nil =>
    cases h
    simpa using hxs
  | cons y ys ih =>
    rw [List.foldlM_cons, bind_eq_ok] at h
    obtain ⟨w, hw, h⟩ := h
    rw [List.exists_mem_cons_iff, ← or_assoc] at hxs
    exact ih h (hxs.imp_left (hf hw))

theorem foldlM_not_normal_iff (hint : ∀ a b : Int, exact a b = onInt a b) :
    (∃ z, xs.foldlM (lift exact onInt onFloat onComplex) x = .ok z ∧ ¬ z.Normal) ↔
      ∃ q qs, x.rational? = some q ∧ xs.mapM rational? = some qs ∧
        (x.isFrac || xs.any isFrac) ∧ Whole (qs.foldl exact q) := by
  constructor
  · rintro ⟨z, h, hz⟩
    obtain ⟨hfrac, r, hr, hwhole⟩ := not_normal_iff.1 hz
    have hall : ¬ ∃ y ∈ x :: xs, y.rational? = none := by
      rw [List.exists_mem_cons_iff]
      intro hnone
      rw [foldlM_inexact lift_inexact h hnone] at hr
      cases hr
    obtain ⟨rs, hrs⟩ := Option.ne_none_iff_exists'.1 (mt exists_mem_of_mapM hall)
    obtain ⟨q, qs, hq, hqs, rfl⟩ := mapM_cons_eq_some.1 hrs
    obtain ⟨w, hw, hvalue, hkind⟩ := foldlM_exact hint hq hqs
    obtain rfl := Except.ok.inj (h.symm.trans hw)
    rw [hvalue] at hr
    cases hr
    exact ⟨q, qs, hq, hqs, hkind.symm.trans hfrac, hwhole⟩
  · rintro ⟨q, qs, hq, hqs, hfrac, hwhole⟩
    obtain ⟨z, hz, hvalue, hkind⟩ := foldlM_exact hint hq hqs
    exact ⟨z, hz, not_normal_iff.2 ⟨hkind.trans hfrac, _, hvalue, hwhole⟩⟩

end Lift

theorem div_inexact (h : x.div y = .ok z) (hxy : x.rational? = none ∨ y.rational? = none) :
    z.rational? = none := by
  rw [div.eq_def] at h
  split at h
  · simp [rational?] at hxy
  · simp [rational?] at hxy
  · simp [rational?] at hxy
  · simp [rational?] at hxy
  all_goals
    simp only [bind_eq_ok] at h
  · obtain ⟨c, -, d, -, h⟩ := h
    cases h
    rfl
  · obtain ⟨c, -, d, -, h⟩ := h
    cases h
    rfl
  · obtain ⟨a, -, b, -, h⟩ := h
    split at h
    · cases h
    · cases h
      rfl

theorem isFrac_rotatedPow {a b : Float} (h : rotatedPow a b = .ok z) : z.isFrac = false := by
  rw [rotatedPow] at h
  split at h
  · cases h
  · cases h
    rfl

theorem isFrac_floatPow {a b : Float} (h : floatPow a b = .ok z) : z.isFrac = false := by
  have hfloat {c : Float} (hc : Except.ok (.float c) = (.ok z : Except Fault Number)) :
      z.isFrac = false := by
    cases hc
    rfl
  have herror {e : Fault} (he : Except.error e = (.ok z : Except Fault Number)) :
      z.isFrac = false := by
    cases he
  -- Every test decides between binary64 numbers and errors, but for the one that asks for a
  -- complex result.
  refine of_ite h hfloat fun h => of_ite h hfloat fun h => of_ite h hfloat fun h => ?_
  refine of_ite h hfloat fun h => of_ite h (fun h => of_ite h hfloat hfloat) fun h => ?_
  refine of_ite h (fun h => of_ite h herror hfloat) fun h => ?_
  exact of_ite h isFrac_rotatedPow fun h => of_ite h herror hfloat

theorem fracPow_eq_ok {n : Int} : fracPow q n = .ok z ↔ (0 ≤ n ∨ q ≠ 0) ∧ z = .frac (q ^ n) := by
  rw [fracPow]
  split_ifs with hn hq
  · have hpow : q ^ n = q ^ n.toNat := by rw [← zpow_natCast, Int.toNat_of_nonneg hn]
    rw [hpow, Except.ok.injEq, eq_comm]
    simp [hn]
  · simp [hn, hq]
  · have hpow : q ^ n = (1 / q) ^ (-n).toNat := by
      rw [← zpow_natCast, Int.toNat_of_nonneg (by omega), one_div, inv_zpow', neg_neg]
    rw [hpow, Except.ok.injEq, eq_comm]
    simp [hq]

theorem not_normal_pow (hy : y.Normal) (h : x.pow y = .ok z) (hz : ¬ z.Normal) :
    ∃ q n, x = .frac q ∧ y = .int n ∧ Whole (q ^ n) := by
  have hfloat {a b : Except Fault Float} (h : (do floatPow (← a) (← b)) = .ok z) : False := by
    simp only [bind_eq_ok] at h
    obtain ⟨a', -, b', -, h⟩ := h
    exact hz (normal_of_isFrac (isFrac_floatPow h))
  have hden {b : Rat} (hb : (frac b).Normal) : b.den ≠ 1 := by
    intro hone
    exact normal_frac.1 hb ⟨b.num, ((Rat.den_eq_one_iff b).1 hone).symm⟩
  rw [pow.eq_def] at h
  split at h
  · split at h
    · cases h
      exact absurd (normal_int _) hz
    · exact (hfloat h).elim
  · next q n =>
    obtain ⟨-, rfl⟩ := fracPow_eq_ok.1 h
    exact ⟨q, n, rfl, rfl, not_not.1 (mt normal_frac.2 hz)⟩
  · rw [if_neg (hden hy)] at h
    exact (hfloat h).elim
  · rw [if_neg (hden hy)] at h
    exact (hfloat h).elim
  · exact (hfloat h).elim

theorem isFrac_sqrt (h : x.sqrt = .ok z) : z.isFrac = false := by
  simp only [sqrt, bind_eq_ok] at h
  obtain ⟨⟨re, im⟩, -, h⟩ := h
  split at h
  all_goals
    split at h
    · rw [bind_eq_ok] at h
      obtain ⟨n, -, h⟩ := h
      split at h <;> cases h <;> rfl
    · cases h
      rfl

theorem Normal.add_one (hx : x.Normal) (h : x.add 1 = .ok z) : z.Normal := by
  refine hx.lift_int ?_ h
  rintro a ⟨i, hi⟩
  exact ⟨i - 1, by rw [Int.cast_sub, ← hi]; simp⟩

theorem Normal.sub_one (hx : x.Normal) (h : x.sub 1 = .ok z) : z.Normal := by
  refine hx.lift_int ?_ h
  rintro a ⟨i, hi⟩
  exact ⟨i + 1, by rw [Int.cast_add, ← hi]; simp⟩

theorem isFrac_mod (hx : x.isFrac = false) (hy : y.isFrac = false) (h : x.mod y = .ok z) :
    z.isFrac = false := by
  simp only [mod, bind_eq_ok, pure_eq_ok] at h
  obtain ⟨r, h, rfl⟩ := h
  rw [divMod.eq_def] at h
  split at h
  · split at h
    · cases h
    · cases h
      rfl
  · cases h
  · cases h
  · simp only [bind_eq_ok] at h
    obtain ⟨a, -, b, -, h⟩ := h
    cases h
    rfl
  · simp only [bind_eq_ok] at h
    obtain ⟨a, -, b, -, h⟩ := h
    cases h
    rfl
  · cases hy
  · cases hx
  · cases hx

theorem isFrac_of_isWhole (hx : x.Normal) (h : x.isWhole) : x.isFrac = false := by
  cases x with
  | frac q =>
    have hden : q.den = 1 := by simpa [isWhole] using h
    exact absurd ⟨q.num, ((Rat.den_eq_one_iff q).1 hden).symm⟩ (normal_frac.1 hx)
  | _ => rfl

end Number

end Jumpcut
