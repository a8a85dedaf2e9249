import Jumpcut.Number.Basic
import Mathlib.Algebra.Order.Field.Rat
import Mathlib.Algebra.Order.Ring.Abs
import Mathlib.Tactic.FieldSimp
import Mathlib.Tactic.Linarith
import Mathlib.Tactic.Ring

namespace Jumpcut

namespace Exact

theorem roundDiv_spec (num : Int) {den : Nat} (hd : 0 < den) :
    2 * num - den ≤ 2 * (roundDiv num den * den) ∧
      2 * (roundDiv num den * den) ≤ 2 * num + den ∧
      (2 * (roundDiv num den * den) = 2 * num - den ∨
        2 * (roundDiv num den * den) = 2 * num + den → roundDiv num den % 2 = 0) := by
  have hd' : (0 : Int) < den := by exact_mod_cast hd
  have hsplit : (den : Int) * num.fdiv den + num.fmod den = num := Int.mul_fdiv_add_fmod num den
  have hr : 0 ≤ num.fmod den := Int.fmod_nonneg_of_pos num hd'
  have hr' : num.fmod den < den := Int.fmod_lt_of_pos num hd'
  have hstep : (num.fdiv den + 1) * (den : Int) = den * num.fdiv den + den := by ring
  have hstay : num.fdiv den * (den : Int) = den * num.fdiv den := by ring
  rw [roundDiv]
  split
  · omega
  · split
    · omega
    · split
      · omega
      · omega

theorem abs_round_sub_le (q : Rat) : |(round q : Rat) - q| ≤ 1 / 2 := by
  have hd : (0 : Rat) < q.den := by exact_mod_cast q.den_pos
  have hq : q * q.den = q.num := Rat.mul_den_eq_num q
  obtain ⟨hlo, hhi, -⟩ := roundDiv_spec q.num q.den_pos
  have hlo' : 2 * (q.num : Rat) - q.den ≤ 2 * (round q * q.den) := by exact_mod_cast hlo
  have hhi' : 2 * ((round q : Rat) * q.den) ≤ 2 * q.num + q.den := by exact_mod_cast hhi
  rw [← hq] at hlo' hhi'
  rw [abs_le]
  constructor
  · by_contra h
    nlinarith
  · by_contra h
    nlinarith

@[simp] theorem round_intCast (n : Int) : round (n : Rat) = n := by
  simp [round, roundDiv]

end Exact

namespace Number

def Same (x y : Number) : Prop := x = y ∨ x.eqv y

theorem Same.refl (x : Number) : x.Same x := .inl rfl

theorem ofFloat?_finite {x : Float} {q : Rat} (h : Exact.ofFloat? x = some q) :
    ∃ neg m e, Exact.classify x = .finite neg m e := by
  rw [Exact.ofFloat?] at h
  split at h
  · exact ⟨_, _, _, ‹_›⟩
  · cases h

variable {x y : Number} {a b : Rat}

theorem compare?_of_toRat? (hx : x.toRat? = some a) (hy : y.toRat? = some b) :
    compare? x y = if a < b then some .lt else if b < a then some .gt else some .eq := by
  unfold compare?
  extract_lets place
  have hplace : ∀ {z : Number} {q : Rat}, z.toRat? = some q → place z = some (0, q) := by
    intro z q hz
    cases z with
    | int i => simpa [place, toRat?] using hz
    | frac r => simpa [place, toRat?] using hz
    | float f =>
      obtain ⟨neg, m, e, hf⟩ := ofFloat?_finite hz
      simpa [place, hf, toRat?] using hz
    | complex re im => cases hz
  simp [hplace hx, hplace hy]

theorem eqv_iff_of_toRat? {x y : Number} {a b : Rat} (hx : x.toRat? = some a)
    (hy : y.toRat? = some b) : x.eqv y = true ↔ a = b := by
  have heq : x.eqv y = (compare? x y == some .eq) := by
    cases x with
    | complex re im => cases hx
    | int _ | frac _ | float _ =>
      cases y with
      | complex re im => cases hy
      | int _ | frac _ | float _ => rfl
  rw [heq, compare?_of_toRat? hx hy]
  rcases lt_trichotomy a b with h | h | h
  · simp [h, h.ne]
  · simp [h]
  · simp [h, h.ne', not_lt_of_gt h]

theorem compare?_eq_comm (x y : Number) : compare? x y = some .eq ↔ compare? y x = some .eq := by
  unfold compare?
  extract_lets place
  cases place x with
  | none => cases place y <;> simp
  | some p =>
    cases place y with
    | none => simp
    | some q =>
      obtain ⟨i, a⟩ := p
      obtain ⟨j, b⟩ := q
      rcases lt_trichotomy i j with hij | rfl | hij
      · simp [hij, hij.not_gt]
      · rcases lt_trichotomy a b with hab | rfl | hab
        · simp [hab, hab.not_gt]
        · simp
        · simp [hab, hab.not_gt]
      · simp [hij, hij.not_gt]

theorem eqv_int_comm (i : Int) (x : Number) : (Number.int i).eqv x = x.eqv (.int i) := by
  have hbool : ∀ {u v : Number}, (compare? u v == some .eq) = (compare? v u == some .eq) := by
    intro u v
    rw [Bool.eq_iff_iff, beq_iff_eq, beq_iff_eq]
    exact compare?_eq_comm u v
  cases x with
  | complex c d => exact congrArg (d == 0.0 && ·) hbool
  | int _ | frac _ | float _ => exact hbool

theorem lt_iff_of_toRat? (hx : x.toRat? = some a) (hy : y.toRat? = some b) :
    x.lt y = true ↔ a < b := by
  rw [lt, compare?_of_toRat? hx hy]
  rcases lt_trichotomy a b with h | h | h
  · simp [h]
  · simp [h]
  · simp [h, not_lt_of_gt h]

theorem le_iff_of_toRat? (hx : x.toRat? = some a) (hy : y.toRat? = some b) :
    x.le y = true ↔ a ≤ b := by
  rw [le, compare?_of_toRat? hx hy]
  rcases lt_trichotomy a b with h | h | h
  · simp [h, h.le]
  · simp [h]
  · simp [h, not_lt_of_gt h, not_le_of_gt h]

@[simp] theorem toRat?_ofNat (n : Nat) : (ofNat(n) : Number).toRat? = some (n : Rat) := rfl

end Number

end Jumpcut
