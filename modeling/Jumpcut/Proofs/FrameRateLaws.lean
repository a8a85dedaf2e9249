import Jumpcut.Exchange.FrameRate
import Jumpcut.Proofs.ArithmeticLaws

namespace Jumpcut.FrameRate

variable {n : Int} {tb : Rat}

theorem isBroadcast_iff : isBroadcast n ↔ n = 24 ∨ n = 30 ∨ n = 60 := by
  simp only [isBroadcast, Bool.or_eq_true, decide_eq_true_eq, or_assoc]
  norm_cast

theorem ofTimeBase_thousandths (h : tb * 1000 = n) : ofTimeBase tb =
    if ¬ isBroadcast tb.ceil ∧ tb.ceil * (999 / 1000) = tb then ⟨tb.ceil, true⟩
    else ⟨Exact.trunc tb, false⟩ := by
  have hne {k : Int} (hk : ∀ m : Int, k * 1000 ≠ m * 1001) : tb ≠ k / 1001 := by
    rintro rfl
    rw [div_mul_eq_mul_div, div_eq_iff (by norm_num)] at h
    exact hk n (by exact_mod_cast h)
  have h24 := @hne 24000 (by omega)
  have h30 := @hne 30000 (by omega)
  have h60 := @hne 60000 (by omega)
  push_cast at h24 h30 h60
  rw [ofTimeBase, if_neg h24, if_neg h30, if_neg h60]
  simp

theorem ofTimeBase_whole (hn : n ≠ 0) : ofTimeBase n = ⟨n, false⟩ := by
  rw [ofTimeBase_thousandths (n := n * 1000) (by push_cast; rfl), Rat.ceil_intCast, if_neg,
    Exact.trunc_intCast]
  rintro ⟨-, h⟩
  have : (n : Rat) = 0 := by linarith
  exact hn (by exact_mod_cast this)

theorem ofTimeBase_reduced (hlo : 1 ≤ n) (hhi : n < 1000) (hn : ¬ isBroadcast n) :
    ofTimeBase (n * (999 / 1000)) = ⟨n, true⟩ := by
  have hlo' : (1 : Rat) ≤ n := by exact_mod_cast hlo
  have hhi' : (n : Rat) < 1000 := by exact_mod_cast hhi
  have hceil : (n * (999 / 1000) : Rat).ceil = n := by
    refine le_antisymm (Rat.ceil_le_iff.2 (by linarith)) (Int.sub_one_lt_iff.1 (Rat.lt_ceil_iff.2 ?_))
    push_cast
    linarith
  rw [ofTimeBase_thousandths (n := n * 999) (by push_cast; ring), hceil, if_pos ⟨hn, rfl⟩]

theorem ofTimeBase_timeBase (hlo : 1 ≤ n) (hhi : n < 1000) (reduced : Bool) :
    ofTimeBase (timeBase n reduced) = ⟨n, reduced⟩ := by
  cases reduced with
  | false => exact ofTimeBase_whole (by omega)
  | true =>
    by_cases hn : isBroadcast n
    · rcases isBroadcast_iff.1 hn with rfl | rfl | rfl <;> decide +kernel
    · have hrate : timeBase n true = n * (999 / 1000) := if_neg hn
      rw [hrate, ofTimeBase_reduced hlo hhi hn]

theorem timeBase_ofTimeBase (htb : 0 ≤ tb) :
    timeBase (ofTimeBase tb).base (ofTimeBase tb).reduced = tb ∨ ofTimeBase tb = ⟨⌊tb⌋, false⟩ := by
  unfold ofTimeBase
  split_ifs with h24 h30 h60
  · exact .inl (by rw [h24]; decide +kernel)
  · exact .inl (by rw [h30]; decide +kernel)
  · exact .inl (by rw [h60]; decide +kernel)
  · dsimp only
    split
    · next h =>
      simp only [Bool.and_eq_true, Bool.not_eq_true', decide_eq_true_eq] at h
      exact .inl (by rw [timeBase, if_neg (by simp), if_neg (by simp [h.1]), h.2])
    · exact .inr (by rw [Exact.trunc_eq_floor htb])

/-- Codes of whole numbers below a thousand are read as rates that have these codes, and a rate comes
back from its code, or its whole part does. Whole rates and those of the chart come back. -/
theorem codes_round_trip :
    (∀ (n : Int) (reduced : Bool), 1 ≤ n → n < 1000 →
      ofTimeBase (timeBase n reduced) = ⟨n, reduced⟩) ∧
    ∀ (tb : Rat) (r : FrameRate), 0 < tb → ofTimeBase tb = r →
      (timeBase r.base r.reduced = tb ∨ timeBase r.base r.reduced = ⌊tb⌋) ∧
      ((∃ n : Int, tb = n) ∨ tb = 24000 / 1001 ∨ tb = 30000 / 1001 ∨ tb = 60000 / 1001 →
        timeBase r.base r.reduced = tb) := by
  refine ⟨fun n reduced hlo hhi => ofTimeBase_timeBase hlo hhi reduced, ?_⟩
  rintro tb _ htb rfl
  refine ⟨(timeBase_ofTimeBase htb.le).imp_right fun h => by rw [h]; rfl, ?_⟩
  rintro (⟨n, rfl⟩ | rfl | rfl | rfl)
  · rw [ofTimeBase_whole (by rintro rfl; exact htb.ne rfl)]
    rfl
  all_goals decide +kernel

theorem codes_round_trip_last : ofTimeBase (timeBase 999 true) = ⟨999, true⟩ ∧
    (timeBase 23 false = 24 * (999 / 1000) ∨ timeBase 23 false = ⌊(24 * (999 / 1000) : Rat)⌋) := by
  have hcode : ofTimeBase (24 * (999 / 1000)) = ⟨23, false⟩ := by decide +kernel
  exact ⟨codes_round_trip.1 999 true (by decide) (by decide),
    (codes_round_trip.2 _ _ (by norm_num) hcode).1⟩

end Jumpcut.FrameRate
