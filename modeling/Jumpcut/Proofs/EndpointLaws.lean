import Jumpcut.Proofs.DecimalLaws
import Jumpcut.Proofs.RangeLaws

namespace Jumpcut

open Outcome Setting Number Decimal List Range

namespace Exact

theorem trunc_neg (q : Rat) : trunc (-q) = -trunc q := by
  rw [trunc, trunc, Rat.neg_num, Rat.neg_den, Int.neg_tdiv]

theorem trunc_eq_round_iff (q : Rat) :
    trunc q = round q ↔ Int.fract |q| < 1 / 2 ∨ Int.fract |q| = 1 / 2 ∧ Even ⌊|q|⌋ := by
  have habs : trunc q = round q ↔ round |q| = ⌊|q|⌋ := by
    rcases abs_choice q with h | h
    · rw [h, trunc_eq_floor (abs_eq_self.1 h), eq_comm]
    · rw [h, round_neg, ← trunc_eq_floor (by rw [← h]; exact abs_nonneg q), trunc_neg, neg_inj, eq_comm]
  have hnear : abs (((⌊|q|⌋ : Int) : Rat) - |q|) = Int.fract |q| := by
    rw [abs_sub_comm, Int.self_sub_floor, abs_of_nonneg (Int.fract_nonneg _)]
  rw [habs]
  constructor
  · intro hround
    have hle := abs_round_sub_le |q|
    rw [hround, hnear] at hle
    refine hle.lt_or_eq.imp_right fun htie => ⟨htie, ?_⟩
    have heven := @round_even |q| (by rw [hround, hnear, htie])
    rwa [hround, ← Int.even_iff] at heven
  · rintro (hlt | ⟨htie, heven⟩)
    · exact round_eq_of (hnear.trans_le hlt.le) fun h => absurd (hnear.symm.trans h) hlt.ne
    · exact round_eq_of (hnear.trans_le htie.le) fun _ => Int.even_iff.1 heven

end Exact

namespace Setting

open Exact

theorem isNumberChar_of_isDigit {c : Char} (h : c.isDigit) : isNumberChar c := by
  obtain ⟨hlo, hhi⟩ : 48 ≤ c.toNat ∧ c.toNat ≤ 57 := Char.isDigit_iff_toNat.1 h
  rw [← Char.ofNat_toNat c]
  generalize c.toNat = k at hlo hhi
  interval_cases k <;> decide

theorem time_toString {a : Int} (h : a.natAbs < 2 ^ 53) : time (toString a) = .ok (.ticks a) := by
  obtain ⟨neg, htext, hvalue⟩ := exists_sign a
  have hspells := spells_toDigits a.natAbs
  rw [htext]
  set text := (if neg then ['-'] else []) ++ Nat.toDigits 10 a.natAbs with hcs
  have hchars : ∀ c ∈ text, isNumberChar c := by
    intro c hc
    rcases mem_append.1 hc with hc | hc
    · cases neg with
      | false => cases hc
      | true =>
        rw [mem_singleton.1 hc]
        decide
    · exact isNumberChar_of_isDigit (hspells.digits c hc)
  have hcolon : text.contains ':' = false := by
    rw [Bool.eq_false_iff, ne_eq, contains_iff_mem]
    intro hmem
    exact absurd (hchars ':' hmem) (by decide)
  have hfloat := ofFloat?_nearest_whole neg h
  rw [hvalue] at hfloat
  have hsplit : split (.text (String.ofList text)) =
      .ok (.float (nearest neg a.natAbs 0), "") := by
    unfold split
    dsimp only
    rw [String.toList_ofList, takeWhile_eq_self_iff.2 hchars, hcs, hspells.signed_float?,
      ← hcs, dropWhile_eq_nil_iff.2 hchars]
  have htrunc : trunc (.float (nearest neg a.natAbs 0)) = .ok a :=
    trunc_float.2 ⟨a, hfloat, trunc_intCast a⟩
  have hwhole : (float (nearest neg a.natAbs 0)).isWhole := by
    rw [isWhole, hfloat]
    simp
  unfold time
  dsimp only
  rw [String.toList_ofList, hcolon, if_neg Bool.false_ne_true, hsplit, ok_bind]
  dsimp only
  rw [if_neg (by decide), if_neg (by decide), if_neg (by decide), checkUnit, if_pos (by decide),
    ok_bind, if_pos hwhole, htrunc]
  rfl

end Setting

namespace Range

/-- The position that an endpoint stands for among `n` ticks: a negative one counts from the end,
and none lies outside. -/
def meant (n : Nat) (x : Int) : Int := if 0 ≤ x then min x n else max (n + x) 0

def position (n : Nat) (x : Int) : Nat := endpoint n (fromEnd n x)

/-- The endpoint lies before the beginning, by less than the length. -/
def Overshoots (n : Nat) (x : Int) : Prop := -(2 * (n : Int)) < x ∧ x < -(n : Int)

instance (n : Nat) (x : Int) : Decidable (Overshoots n x) := inferInstanceAs (Decidable (_ ∧ _))

/-- A range writes exactly the ticks from `lo` up to, not including, `hi`, whatever `n` ticks it is
given. -/
def Selects (α : Type) (tb : Rat) (n : Nat) (range : List String) (lo hi : Int) : Prop :=
  ∀ (v : α) (xs : List α), xs.length = n → ∃ ys, setAll tb v [range] xs = .ok ys ∧
    ∀ k : Nat, ys[k]? = if lo ≤ k ∧ k < hi then some v else xs[k]?

variable {α : Type} {tb : Rat} {n : Nat} {s t : String} {a b x lo hi : Int}

theorem tick_of_time {l : Length} (h : time s = .ok l) (tb : Rat) (n : Nat) :
    tick tb n s = l.nearestTick tb := by
  have hword {w : String} {e : Fault} (hw : time w = .error e) : s ≠ w := by
    rintro rfl
    rw [h] at hw
    cases hw
  have hstart : time "start" = .error (.setting (.invalidNumber "start")) := rfl
  have hend : time "end" = .error (.setting (.invalidNumber "end")) := rfl
  rw [tick, if_neg (hword hstart), if_neg (hword hend), h]

theorem tick_toString (tb : Rat) (n : Nat) (h : a.natAbs < 2 ^ 53) :
    tick tb n (toString a) = .ok a :=
  tick_of_time (time_toString h) tb n

theorem Overshoots.position_eq (h : Overshoots n x) : (position n x : Int) = x + 2 * n := by
  obtain ⟨hlo, hhi⟩ := h
  rw [position, fromEnd, if_pos (by omega), endpoint, if_pos (by omega)]
  omega

theorem Overshoots.meant_eq (h : Overshoots n x) : meant n x = 0 := by
  obtain ⟨hlo, hhi⟩ := h
  rw [meant, if_neg (by omega)]
  omega

theorem position_eq_meant (h : ¬ Overshoots n x) : (position n x : Int) = meant n x := by
  rw [Overshoots] at h
  rw [position, meant, fromEnd]
  split
  · rw [endpoint, if_neg (show ¬ 0 ≤ x by omega)]
    split <;> omega
  · rw [endpoint, if_neg (by omega), if_pos (by omega)]
    omega

theorem meant_nonneg (n : Nat) (x : Int) : 0 ≤ meant n x := by
  rw [meant]
  split <;> omega

theorem meant_le (n : Nat) (x : Int) : meant n x ≤ n := by
  rw [meant]
  split <;> omega

theorem position_le (n : Nat) (x : Int) : position n x ≤ n := by
  by_cases h : Overshoots n x
  · have heq := h.position_eq
    have hhi := h.2
    omega
  · have heq := position_eq_meant h
    have hle := meant_le n x
    omega

theorem same_positions_iff :
    (∀ k : Nat, position n a ≤ k ∧ k < position n b ↔ meant n a ≤ k ∧ k < meant n b) ↔
      (¬ Overshoots n a ∧ ¬ Overshoots n b) ∨
        (meant n b ≤ meant n a ∧ position n b ≤ position n a) := by
  constructor
  · intro hall
    have hempty (h : meant n b ≤ meant n a) : position n b ≤ position n a := by
      by_contra hlt
      have hmem := (hall (position n a)).1 ⟨Nat.le_refl _, by omega⟩
      omega
    have hnonneg := meant_nonneg n a
    by_cases ha : Overshoots n a
    · have hle : meant n b ≤ meant n a := by
        by_contra hlt
        have hmem := (hall 0).2 ⟨by rw [ha.meant_eq]; rfl, by omega⟩
        have hpos := ha.position_eq
        have hlo := ha.1
        omega
      exact .inr ⟨hle, hempty hle⟩
    · by_cases hb : Overshoots n b
      · have hle : meant n b ≤ meant n a := by rwa [hb.meant_eq]
        exact .inr ⟨hle, hempty hle⟩
      · exact .inl ⟨ha, hb⟩
  · rintro (⟨ha, hb⟩ | ⟨hmeant, hempty⟩) k
    · rw [← position_eq_meant ha, ← position_eq_meant hb, Int.ofNat_le, Int.ofNat_lt]
    · omega

theorem setAll_pair (hs : tick tb n s = .ok a) (ht : tick tb n t = .ok b) (v : α) {xs : List α}
    (hn : xs.length = n) :
    setAll tb v [[s, t]] xs = .ok (paint (position n a) (position n b) v xs) := by
  subst hn
  rw [setAll, foldlM_cons, setOne_eq, slice]
  simp only [mapM_cons, mapM_nil, hs, ht, Except.map, pure, ok_bind, Except.pure]
  rfl

theorem selects_pair_iff [Nontrivial α] (hs : tick tb n s = .ok a) (ht : tick tb n t = .ok b)
    (hhi : hi ≤ n) :
    Selects α tb n [s, t] lo hi ↔
      ∀ k : Nat, position n a ≤ k ∧ k < position n b ↔ lo ≤ k ∧ k < hi := by
  constructor
  · intro hall k
    obtain ⟨u, v, hne⟩ := exists_pair_ne α
    obtain ⟨ys, hys, hk⟩ := hall v (replicate n u) (by simp)
    rw [setAll_pair hs ht v (by simp), Except.ok.injEq] at hys
    subst hys
    have hk := hk k
    by_cases hlt : k < n
    · rw [getElem?_paint, getElem?_replicate_of_lt hlt, Option.map_some] at hk
      constructor
      · intro hwritten
        by_contra hnot
        rw [if_pos hwritten, if_neg hnot] at hk
        exact hne (Option.some.inj hk).symm
      · intro hmeant
        by_contra hnot
        rw [if_neg hnot, if_pos hmeant] at hk
        exact hne (Option.some.inj hk)
    · have hposition := position_le n b
      omega
  · intro hsame v xs hn
    refine ⟨_, setAll_pair hs ht v hn, fun k => ?_⟩
    rw [getElem?_paint]
    simp only [hsame k]
    split
    · rw [getElem?_eq_getElem (by omega), Option.map_some]
    · rfl

/-- A range selects the ticks that its endpoints stand for if and only if neither of them overshoots,
or no ticks are meant and none are between the positions. -/
theorem selects_meant_iff [Nontrivial α] (hs : tick tb n s = .ok a) (ht : tick tb n t = .ok b) :
    Selects α tb n [s, t] (meant n a) (meant n b) ↔
      (¬ Overshoots n a ∧ ¬ Overshoots n b) ∨
        (meant n b ≤ meant n a ∧ position n b ≤ position n a) :=
  (selects_pair_iff hs ht (meant_le n b)).trans same_positions_iff

theorem selects_meant_iff_eight_of_ten :
    tick 30 10 "-8" = .ok (-8) ∧ tick 30 10 "end" = .ok 10 ∧
      ∃ ys, setAll 30 true [["-8", "end"]] (replicate 10 false) = .ok ys ∧
        ∀ k : Nat, ys[k]? = if meant 10 (-8) ≤ k ∧ k < meant 10 10 then some true
          else (replicate 10 false)[k]? := by
  have hs : tick 30 10 "-8" = .ok (-8) := rfl
  have ht : tick 30 10 "end" = .ok 10 := rfl
  exact ⟨hs, ht, (selects_meant_iff hs ht).2 (by decide) true _ rfl⟩

theorem setAll_fifteen_of_ten :
    setAll 30 true [["-15", "end"]] (replicate 10 false) =
        .ok (replicate 5 false ++ replicate 5 true) ∧
      tick 30 10 "-15" = .ok (-15) ∧ tick 30 10 "end" = .ok 10 ∧
      meant 10 (-15) = 0 ∧ meant 10 10 = 10 :=
  ⟨rfl, rfl, rfl, by decide, by decide⟩

/-- The last `m` ticks are selected, or all if there are fewer, exactly if `m` is not between the
length and twice the length. -/
theorem selects_last_iff [Nontrivial α] {m : Nat} (hpos : 0 < m) (hm : m < 2 ^ 53) :
    Selects α tb n [toString (-(m : Int)), "end"] (n - min m n) n ↔ ¬ (n < m ∧ m < 2 * n) := by
  have hs : tick tb n (toString (-(m : Int))) = .ok (-(m : Int)) := tick_toString tb n (by simpa)
  have ht : tick tb n "end" = .ok (n : Int) := rfl
  have hlo : meant n (-(m : Int)) = n - min m n := by
    rw [meant, if_neg (by omega)]
    omega
  have hhi : meant n n = n := by
    rw [meant, if_pos (by omega)]
    omega
  calc Selects α tb n [toString (-(m : Int)), "end"] (n - min m n) n
      ↔ Selects α tb n [toString (-(m : Int)), "end"] (meant n (-m)) (meant n n) := by rw [hlo, hhi]
    _ ↔ (¬ Overshoots n (-m) ∧ ¬ Overshoots n n) ∨
          (meant n n ≤ meant n (-m) ∧ position n n ≤ position n (-m)) :=
      (selects_pair_iff hs ht (meant_le n n)).trans same_positions_iff
    _ ↔ ¬ (n < m ∧ m < 2 * n) := by
      have hle := position_le n n
      rw [Overshoots, Overshoots, hlo, hhi]
      omega

end Range

namespace Number

theorem trunc_eq_round_iff (x : Number) :
    x.trunc = x.round ↔ ∀ q, x.toRat? = some q → Exact.trunc q = Exact.round q := by
  rw [trunc, round]
  cases x with
  | int a => simp [toIntBy, toRat?, Exact.trunc_intCast]
  | frac q => simp [toIntBy, toRat?]
  | float x =>
    rw [toIntBy, toIntBy, toRat?]
    cases Exact.ofFloat? x <;> cases Exact.classify x <;> simp
  | complex a b => simp [toIntBy, toRat?]

end Number

namespace Length

def exactTicks (tb : Rat) : Length → Except Fault Number
  | .ticks n => .ok (.int n)
  | .seconds s => do mul (.float (← floatPart s)) (.frac tb)

theorem toTicks_eq (tb : Rat) (l : Length) : l.toTicks tb = l.exactTicks tb >>= trunc := by
  cases l with
  | ticks n => rfl
  | seconds s => rw [toTicks, exactTicks, bind_assoc]

theorem nearestTick_eq (tb : Rat) (l : Length) : l.nearestTick tb = l.exactTicks tb >>= round := by
  cases l with
  | ticks n => rfl
  | seconds s => rw [nearestTick, exactTicks, bind_assoc]

/-- A time has as many ticks in a margin, a least length or an attribute as it has in an endpoint
exactly if less than half a tick is cut off, or half a tick behind an even number of them. -/
theorem toTicks_eq_tick_iff {v : String} {l : Length} (h : time v = .ok l) (tb : Rat)
    (n : Nat) :
    l.toTicks tb = tick tb n v ↔ ∀ x q, l.exactTicks tb = .ok x → x.toRat? = some q →
      Int.fract |q| < 1 / 2 ∨ Int.fract |q| = 1 / 2 ∧ Even ⌊|q|⌋ := by
  rw [tick_of_time h, toTicks_eq, nearestTick_eq]
  simp only [← Exact.trunc_eq_round_iff]
  cases l.exactTicks tb with
  | error e => exact ⟨fun _ _ _ hx => (by cases hx), fun _ => rfl⟩
  | ok x =>
    rw [ok_bind, ok_bind, trunc_eq_round_iff]
    exact ⟨fun hall y q hy => Except.ok.inj hy ▸ hall q, fun hall q => hall x q rfl⟩

theorem toTicks_eq_tick_iff_half : ∃ l, time "0.5s" = .ok l ∧
    l.toTicks 5 = tick 5 10 "0.5s" := by
  have htime : time "0.5s" = .ok (.seconds "0.5") := eq_ok_of_toOption (by decide +kernel)
  refine ⟨_, htime, (toTicks_eq_tick_iff htime 5 10).2 fun x q hx hq => .inr ?_⟩
  have hvalue : ((seconds "0.5").exactTicks 5).toOption.bind toRat? = some (5 / 2) := by
    decide +kernel
  obtain rfl : q = 5 / 2 := by
    rw [hx] at hvalue
    exact Option.some.inj (hq.symm.trans hvalue)
  decide +kernel

/-- Four seconds and a tenth are 123 of thirty ticks a second. Their product is a little less, and its
part of a tick is cut off. -/
theorem ticks_of_tenths : ∃ l, time "4.1s" = .ok l ∧ l.toTicks 30 = .ok 122 ∧
    tick 30 500 "4.1s" = .ok 123 := by
  have htime : time "4.1s" = .ok (.seconds "4.1") := eq_ok_of_toOption (by decide +kernel)
  exact ⟨_, htime, rfl, (tick_of_time htime 30 500).trans rfl⟩

end Length

end Jumpcut
