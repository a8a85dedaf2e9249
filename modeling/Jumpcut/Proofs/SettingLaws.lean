import Jumpcut.Setting.Reader
import Jumpcut.Proofs.ArithmeticLaws

namespace Jumpcut

open Exact Outcome Number

namespace Text

theorem mem_of_mem_strip {s : String} {c : Char} (h : c ∈ (strip s).toList) : c ∈ s.toList := by
  rw [strip, String.toList_ofList, stripEnd, List.mem_reverse] at h
  have hfront := (List.dropWhile_suffix isBlank).subset h
  rw [List.mem_reverse] at hfront
  exact (List.dropWhile_suffix isBlank).subset hfront

end Text

namespace Decimal

theorem classify_nearest (neg : Bool) (m : Nat) (e : Int) : classify (nearest neg m e) ≠ .nan := by
  have hinf : classify (1.0 / 0.0) ≠ .nan := by decide +kernel
  have hzero : classify 0.0 ≠ .nan := by decide +kernel
  have hfloat (q : Rat) : classify ((toFloat? q).getD (1.0 / 0.0)) ≠ .nan := by
    cases hq : toFloat? q with
    | none => exact hinf
    | some x => exact classify_ne_nan_of_ofFloat? (ofFloat?_of_toFloat? hq)
  unfold nearest
  extract_lets len q x
  have hx : classify x ≠ .nan := by
    dsimp only [x]
    split
    · exact hzero
    · split
      · exact hinf
      · exact hfloat _
  split
  · exact classify_neg_ne_nan hx
  · exact hx

theorem mem_of_mem_sign {cs : List Char} {c : Char} (h : c ∈ (sign cs).2) : c ∈ cs := by
  rw [sign.eq_def] at h
  split at h
  · exact .tail _ h
  · exact .tail _ h
  · exact h

theorem classify_of_floatFront {cs rest : List Char} {x : Float}
    (h : floatFront cs = some (x, rest)) (hs : ∀ c ∈ cs, c.toLower ≠ 'n') : classify x ≠ .nan := by
  have hinf : classify (1.0 / 0.0) ≠ .nan := by decide +kernel
  have hbody : ∀ c ∈ (sign cs).2, c.toLower ≠ 'n' := fun c hc => hs c (mem_of_mem_sign hc)
  unfold floatFront at h
  generalize sign cs = p at h hbody
  obtain ⟨neg, body⟩ := p
  dsimp only at h hbody
  split at h
  · cases h
    exact classify_nearest neg _ _
  · have hinf' : classify (if neg then -(1.0 / 0.0) else 1.0 / 0.0) ≠ .nan := by
      split
      · exact classify_neg_ne_nan hinf
      · exact hinf
    split at h
    · cases h
      exact hinf'
    · split at h
      · cases h
        exact hinf'
      · split at h
        · next hword =>
          cases body with
          | nil => cases hword
          | cons c cs =>
            simp only [lower, beq_iff_eq] at hword
            exact absurd (List.cons.inj hword).1 (hbody c (.head _))
        · cases h

theorem classify_of_float? {s : String} {x : Float} (h : float? s = some x)
    (hs : ∀ c ∈ s.toList, c.toLower ≠ 'n') : classify x ≠ .nan := by
  rw [float?] at h
  split at h
  · next y hfront =>
    cases h
    exact classify_of_floatFront hfront fun c hc => hs c (Text.mem_of_mem_strip hc)
  · cases h

end Decimal

namespace Setting

theorem toLower_of_isNumberChar {c : Char} (h : isNumberChar c) : c.toLower ≠ 'n' := by
  rw [isNumberChar, List.contains_iff_mem] at h
  have hall : ∀ c ∈ "0123456789_ .-".toList, c.toLower ≠ 'n' := by simp
  exact hall c h

variable {s : String} {v : Number}

theorem split_text {v : Number × String} (h : split (.text s) = .ok v) :
    ∃ x, v.1 = .float x ∧ classify x ≠ .nan := by
  unfold split at h
  dsimp only at h
  cases hx : Decimal.float? (String.ofList (s.toList.takeWhile isNumberChar)) with
  | none =>
    rw [hx] at h
    cases h
  | some x =>
    rw [hx] at h
    obtain rfl := Except.ok.inj h
    refine ⟨x, rfl, Decimal.classify_of_float? hx fun c hc => ?_⟩
    rw [String.toList_ofList] at hc
    exact toLower_of_isNumberChar (List.mem_takeWhile_imp hc)

theorem quotient_float (h : quotient s = .ok v) : ∃ x, v = .float x ∧ classify x ≠ .nan := by
  rw [quotient] at h
  split at h
  · split at h
    · next n d hn hd =>
      split at h
      · cases h
      · next hzero =>
        rw [div, if_neg hzero, bind_eq_ok] at h
        obtain ⟨x, hx, h⟩ := h
        obtain rfl := pure_eq_ok.1 h
        exact ⟨x, rfl, classify_ne_nan_of_ofFloat? (ofFloat?_of_nearestFloat hx)⟩
    · cases h
  · cases h

theorem number_text (h : number (.text s) = .ok v) : ∃ x, v = .float x ∧ classify x ≠ .nan := by
  unfold number at h
  extract_lets plain at h
  dsimp only at h
  split at h
  · exact quotient_float h
  · simp only [plain, bind_eq_ok] at h
    obtain ⟨⟨num, unit⟩, hsplit, h⟩ := h
    obtain ⟨x, rfl, hx⟩ := split_text hsplit
    dsimp only at h
    split at h
    · have hgrid : OnGrid 100 := by exact_mod_cast @onGrid_intCast 100 (by norm_num)
      obtain ⟨b, hb, hvalue⟩ := @nearestFloat_ok 100 (le_largest (by norm_num))
      rw [nearest_eq_self hgrid] at hvalue
      change (nearestFloat ((100 : Int) : Rat) >>= fun b =>
        if b == 0.0 then Except.error .divisionByZero else pure (float (x / b))) = _ at h
      rw [Int.cast_ofNat, hb, ok_bind, beq_zero_of_ne hvalue (by norm_num)] at h
      obtain rfl := pure_eq_ok.1 h
      exact ⟨x / b, rfl, classify_div_ne_nan hx hvalue (by norm_num)⟩
    · simp only [bind_eq_ok, pure_eq_ok] at h
      obtain ⟨-, -, rfl⟩ := h
      exact ⟨x, rfl, hx⟩

theorem speed_text (h : speed (.text s) = .ok v) :
    ∃ x q, v = .float x ∧ ofFloat? x = some q ∧ 0 < q ∧ q ≤ 99999 := by
  simp only [speed, bind_eq_ok] at h
  obtain ⟨num, hnum, h⟩ := h
  obtain ⟨x, rfl, hx⟩ := number_text hnum
  split at h
  · obtain rfl := pure_eq_ok.1 h
    exact ⟨99999.0, 99999, rfl, by decide +kernel, by norm_num, le_rfl⟩
  · next hin =>
    obtain rfl := pure_eq_ok.1 h
    simp only [Bool.or_eq_true, not_or] at hin
    obtain ⟨q, hq, hlo, hhi⟩ := bounds_of_float hx rfl rfl hin.1 hin.2
    exact ⟨x, q, rfl, hq, by simpa using hlo, by simpa using hhi⟩

theorem speedRange_text {r : Number × String × String} (h : speedRange s = .ok r) :
    ∃ x, r.1 = .float x := by
  simp only [speedRange, bind_eq_ok] at h
  obtain ⟨parts, -, h⟩ := h
  split at h
  · simp only [bind_eq_ok, pure_eq_ok] at h
    obtain ⟨num, hnum, rfl⟩ := h
    obtain ⟨x, rfl, -⟩ := number_text hnum
    exact ⟨x, rfl⟩
  · cases h

end Setting

end Jumpcut
