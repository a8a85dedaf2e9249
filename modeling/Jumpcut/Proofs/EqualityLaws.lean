import Jumpcut.Proofs.EvalLaws
import Jumpcut.Proofs.NumberLaws
import Jumpcut.Proofs.ProcedureLaws

/-!
When `equal?` goes by the parts of a pair. Inside pairs values are compared plainly (`Value.same`):
numbers by their value whatever their kinds, and flags tick by tick, which gives flags or nothing.
`Matches` and `Differs` say when such a comparison comes to a plain yes or no.
-/
namespace Jumpcut

open Number

namespace Script.Value

/-- A number, or a truth value or a single flag as one or zero. -/
def scalar? : Value → Option Number
  | .flags [b] => some (.int (if b then 1 else 0))
  | v => v.number?

def Equate (v w : Value) : Prop := ∃ x y, v.scalar? = some x ∧ w.scalar? = some y ∧ x.eqv y

def Matches : Value → Value → Prop
  | .pair a d, .pair a' d' => Matches a a' ∧ Matches d d'
  | .none, .none => True
  | .null, .null => True
  | .char c, .char c' => c = c'
  | .str s, .str s' => s = s'
  | .proc p, .proc p' => p = p'
  | v, w => Equate v w

/-- Whether a plain comparison is made tick by tick. Pairs, characters and the empty list do not
give way to flags on the other side. -/
def byTicks : Value → Value → Bool
  | .flags _, _ => true
  | .pair _ _, _ => false
  | .char _, _ => false
  | .null, _ => false
  | _, .flags _ => true
  | _, _ => false

def Differs : Value → Value → Prop
  | .pair a d, .pair a' d' => Differs a a' ∨ Matches a a' ∧ Differs d d'
  | v, w => byTicks v w = false ∧ ¬ Matches v w

end Script.Value

namespace Script

open Outcome Value

variable {r : Verdict} {v w a b c d a' d' : Value} {xs ys : Flags}

theorem Value.Verdict.holds_eq_true : r.holds = .ok true ↔ r = .bool true ∨ r = .flags [true] := by
  cases r with
  | bool b => simp [Verdict.holds]
  | flags xs =>
    rw [Verdict.holds.eq_def]
    split <;> simp_all

theorem scalar?_flags {x : Number} : (Value.flags xs).scalar? = some x ↔
    ∃ b : Bool, xs = [b] ∧ x = .int (if b then 1 else 0) := by
  rw [scalar?.eq_def]
  split
  · next b h =>
    cases h
    simp [eq_comm]
  · next h =>
    simp only [number?, reduceCtorEq, false_iff]
    rintro ⟨b, rfl, -⟩
    exact h b rfl

theorem equate_flags_left : Equate (.flags xs) v ↔
    ∃ (b : Bool) (x : Number), xs = [b] ∧ v.scalar? = some x ∧
      (int (if b then 1 else 0)).eqv x := by
  simp only [Equate, scalar?_flags]
  constructor
  · rintro ⟨_, x, ⟨b, rfl, rfl⟩, hx, heq⟩
    exact ⟨b, x, rfl, hx, heq⟩
  · rintro ⟨b, x, rfl, hx, heq⟩
    exact ⟨_, x, ⟨b, rfl, rfl⟩, hx, heq⟩

theorem equate_flags_comm : Equate v (.flags xs) ↔ Equate (.flags xs) v := by
  simp only [Equate, scalar?_flags]
  constructor
  · rintro ⟨x, _, hx, ⟨b, rfl, rfl⟩, heq⟩
    exact ⟨_, x, ⟨b, rfl, rfl⟩, hx, by rwa [eqv_int_comm]⟩
  · rintro ⟨_, x, ⟨b, rfl, rfl⟩, hx, heq⟩
    exact ⟨x, _, hx, ⟨b, rfl, rfl⟩, by rwa [← eqv_int_comm]⟩

theorem holds_eachTick : (eachTick xs v).holds = .ok true ↔
    ∃ (b : Bool) (x : Number), xs = [b] ∧ v.number? = some x ∧
      (int (if b then 1 else 0)).eqv x := by
  rw [Verdict.holds_eq_true, eachTick]
  cases v.number? with
  | none => simp [-List.map_const', List.map_eq_singleton_iff]
  | some x => simp [List.map_eq_singleton_iff]

theorem tickwise_ne_bool (t : Bool) : tickwise xs ys ≠ .ok (.bool t) := by
  rw [tickwise.eq_def]
  split
  · simp
  · split <;> simp

theorem holds_tickwise : (∃ r, tickwise xs ys = .ok r ∧ r.holds = .ok true) ↔
    ∃ b, xs = [b] ∧ ys = [b] := by
  simp only [Verdict.holds_eq_true]
  constructor
  · rintro ⟨r, h, rfl | rfl⟩
    · exact (tickwise_ne_bool true h).elim
    · rw [tickwise.eq_def] at h
      split at h
      · next hlen =>
        have hticks : List.zipWith (· == ·) xs ys = [true] := by simpa using h
        have hone : ys.length = 1 := by simpa [hlen] using congrArg List.length hticks
        obtain ⟨x, rfl⟩ := List.length_eq_one_iff.1 (hlen.trans hone)
        obtain ⟨y, rfl⟩ := List.length_eq_one_iff.1 hone
        have hxy : x = y := by simpa using hticks
        exact ⟨x, rfl, by rw [hxy]⟩
      · next hlen =>
        split at h
        · simp only [Except.ok.injEq, Verdict.flags.injEq, List.map_eq_singleton_iff] at h
          obtain ⟨y, rfl, -⟩ := h
          exact absurd rfl hlen
        · simp only [Except.ok.injEq, Verdict.flags.injEq, List.map_eq_singleton_iff] at h
          obtain ⟨x, rfl, -⟩ := h
          exact absurd rfl hlen
        · cases h
  · rintro ⟨b, rfl, rfl⟩
    exact ⟨.flags [true], by simp [tickwise], .inr rfl⟩

theorem equate_flags : Equate (.flags xs) (.flags ys) ↔ ∃ b, xs = [b] ∧ ys = [b] := by
  have heqv : ∀ b c : Bool,
      (int (if b then 1 else 0)).eqv (.int (if c then 1 else 0)) ↔ b = c := by
    intro b c
    rw [eqv_iff_of_toRat? rfl rfl]
    cases b <;> cases c <;> simp
  simp only [equate_flags_left, scalar?_flags]
  constructor
  · rintro ⟨b, _, rfl, ⟨c, rfl, rfl⟩, heq⟩
    exact ⟨b, rfl, by rw [(heqv b c).1 heq]⟩
  · rintro ⟨b, rfl, rfl⟩
    exact ⟨b, _, rfl, ⟨b, rfl, rfl⟩, (heqv b b).2 rfl⟩

theorem same_pair : same (.pair a d) (.pair a' d') =
    (do
      let q ← same a a'
      if ← q.holds then same d d' else return q) := rfl

theorem same_pair_eq_ok : same (.pair a d) (.pair a' d') = .ok r ↔
    ∃ q t, same a a' = .ok q ∧ q.holds = .ok t ∧
      (t = true ∧ same d d' = .ok r ∨ t = false ∧ q = r) := by
  simp only [same_pair, bind_eq_ok]
  constructor
  · rintro ⟨q, hq, t, ht, h⟩
    refine ⟨q, t, hq, ht, ?_⟩
    cases t with
    | true => exact .inl ⟨rfl, h⟩
    | false => exact .inr ⟨rfl, pure_eq_ok.1 h⟩
  · rintro ⟨q, t, hq, ht, ⟨rfl, h⟩ | ⟨rfl, rfl⟩⟩
    · exact ⟨q, hq, true, ht, h⟩
    · exact ⟨q, hq, false, ht, rfl⟩

theorem same_holds_iff : (∃ r, same v w = .ok r ∧ r.holds = .ok true) ↔ Matches v w := by
  induction v generalizing w with
  | pair a d iha ihd =>
    cases w with
    | pair a' d' =>
      rw [Matches, ← iha, ← ihd]
      simp only [same_pair_eq_ok]
      constructor
      · rintro ⟨r, ⟨q, t, hq, ht, ⟨rfl, h⟩ | ⟨rfl, rfl⟩⟩, hr⟩
        · exact ⟨⟨q, hq, ht⟩, r, h, hr⟩
        · rw [ht] at hr
          cases hr
      · rintro ⟨⟨q, hq, ht⟩, r, h, hr⟩
        exact ⟨r, ⟨q, true, hq, ht, .inl ⟨rfl, h⟩⟩, hr⟩
    | _ => simp [same, Matches, Equate, scalar?, number?, Verdict.holds]
  | flags xs =>
    cases w with
    | flags ys => rw [same, holds_tickwise, Matches, equate_flags] <;> simp
    | _ => simp [same, Matches, holds_eachTick, equate_flags_left, scalar?, number?]
  | char | null => cases w <;> simp [same, Matches, Equate, scalar?, number?, Verdict.holds]
  | _ =>
    cases w with
    | flags ys =>
      simp [same, Matches, holds_eachTick, equate_flags_comm, equate_flags_left, scalar?, number?]
    | _ => simp [same, Matches, Equate, scalar?, number?, Verdict.holds]

theorem same_ne_bool (h : byTicks v w = true) (t : Bool) : same v w ≠ .ok (.bool t) := by
  have htick : ∀ ys u, eachTick ys u ≠ .bool t := by
    intro ys u
    rw [eachTick]
    split <;> simp
  cases v with
  | flags xs =>
    cases w with
    | flags ys =>
      rw [same]
      exact tickwise_ne_bool t
    | _ => simp [same, htick]
  | _ =>
    cases w with
    | flags ys => simp_all [same, byTicks]
    | _ => cases h

theorem same_eq_bool (h : byTicks v w = false)
    (hpair : ∀ a d a' d', v = .pair a d → w ≠ .pair a' d') : ∃ t, same v w = .ok (.bool t) := by
  cases v with
  | pair a d =>
    cases w with
    | pair a' d' => exact absurd rfl (hpair a d a' d' rfl)
    | _ => simp [same]
  | flags xs => cases h
  | _ =>
    cases w with
    | flags ys => simp_all [same, byTicks]
    | _ => simp [same, number?]

theorem same_eq_false_of_atom (hpair : ∀ a d a' d', v = .pair a d → w ≠ .pair a' d') :
    same v w = .ok (.bool false) ↔ byTicks v w = false ∧ ¬ Matches v w := by
  rw [← same_holds_iff]
  cases hticks : byTicks v w with
  | true => simp [same_ne_bool hticks]
  | false =>
    obtain ⟨t, ht⟩ := same_eq_bool hticks hpair
    simp [ht, Verdict.holds]

theorem same_eq_false_iff : same v w = .ok (.bool false) ↔ Differs v w := by
  induction v generalizing w with
  | pair a d iha ihd =>
    cases w with
    | pair a' d' =>
      rw [Differs, ← same_holds_iff, ← iha, ← ihd, same_pair_eq_ok]
      constructor
      · rintro ⟨q, t, hq, ht, ⟨rfl, h⟩ | ⟨rfl, rfl⟩⟩
        · exact .inr ⟨⟨q, hq, ht⟩, h⟩
        · exact .inl hq
      · rintro (h | ⟨⟨q, hq, ht⟩, h⟩)
        · exact ⟨.bool false, false, h, rfl, .inr ⟨rfl, rfl⟩⟩
        · exact ⟨q, true, hq, ht, .inl ⟨rfl, h⟩⟩
    | _ =>
      rw [same_eq_false_of_atom (by simp), Differs]
      simp
  | _ =>
    rw [same_eq_false_of_atom (by simp), Differs]
    simp

theorem toValue_eq_bool {x : Except Fault Verdict} {t : Bool} :
    (x >>= fun r => pure r.toValue) = .ok (Value.bool t) ↔ x = .ok (.bool t) := by
  rw [bind_eq_ok]
  constructor
  · rintro ⟨r, hr, h⟩
    cases r with
    | bool u =>
      cases h
      exact hr
    | flags xs => cases h
  · intro h
    exact ⟨_, h, rfl⟩

theorem equal_pair_eq_bool {t : Bool} : equal (.pair a b) (.pair c d) = .ok (.bool t) ↔
    same (.pair a b) (.pair c d) = .ok (.bool t) :=
  toValue_eq_bool

theorem equal_eq_true_iff : equal v w = .ok (.bool true) ↔
    (∃ xs, v = .flags xs ∧ w = .flags xs) ∨
      v.isFloat = w.isFloat ∧ same v w = .ok (.bool true) := by
  rw [equal.eq_def]
  split
  · next xs ys =>
    simp only [Except.ok.injEq, Value.bool.injEq, beq_iff_eq]
    constructor
    · rintro rfl
      exact .inl ⟨xs, rfl, rfl⟩
    · rintro (⟨zs, ⟨⟩, ⟨⟩⟩ | ⟨-, hsame⟩)
      · rfl
      · exact (same_ne_bool rfl true hsame).elim
  · next hflags =>
    have hnot : ¬ ∃ xs, v = .flags xs ∧ w = .flags xs := by
      rintro ⟨xs, rfl, rfl⟩
      exact hflags xs xs rfl rfl
    rw [or_iff_right hnot]
    by_cases hkind : v.isFloat = w.isFloat
    · rw [hkind, bne_self_eq_false, if_neg Bool.false_ne_true, toValue_eq_bool]
      simp
    · simp [hkind]

theorem matches_flags : Matches (.flags xs) w ↔ Equate (.flags xs) w := by
  cases w <;> simp [Matches]

theorem matches_of_equal (h : equal v w = .ok (.bool true))
    (hone : ∀ xs, v = .flags xs → xs.length = 1) : Matches v w := by
  rcases equal_eq_true_iff.1 h with ⟨xs, rfl, rfl⟩ | ⟨-, hsame⟩
  · obtain ⟨b, rfl⟩ := List.length_eq_one_iff.1 (hone xs rfl)
    exact matches_flags.2 (equate_flags.2 ⟨b, rfl, rfl⟩)
  · exact same_holds_iff.1 ⟨_, hsame, rfl⟩

theorem Value.Differs.equal_ne_true (h : Differs v w) : equal v w ≠ .ok (.bool true) := by
  rw [← same_eq_false_iff] at h
  rw [Ne, equal_eq_true_iff, h]
  rintro (⟨xs, rfl, rfl⟩ | ⟨-, htrue⟩)
  · exact same_ne_bool rfl false h
  · cases htrue

theorem same_pair_eq_true : same (.pair a b) (.pair c d) = .ok (.bool true) ↔
    Matches a c ∧ same b d = .ok (.bool true) := by
  rw [same_pair_eq_ok, ← same_holds_iff]
  constructor
  · rintro ⟨q, t, hq, ht, ⟨rfl, h⟩ | ⟨rfl, rfl⟩⟩
    · exact ⟨⟨q, hq, ht⟩, h⟩
    · cases ht
  · rintro ⟨⟨q, hq, ht⟩, h⟩
    exact ⟨q, true, hq, ht, .inl ⟨rfl, h⟩⟩

theorem same_pair_iff_of_equal (ha : equal a c = .ok (.bool true))
    (hb : equal b d = .ok (.bool true)) :
    same (.pair a b) (.pair c d) = .ok (.bool true) ↔
      (∀ xs, b ≠ .flags xs) ∧ ∀ xs, a = .flags xs → xs.length = 1 := by
  rw [same_pair_eq_true]
  constructor
  · rintro ⟨hmatch, hsame⟩
    constructor
    · rintro xs rfl
      exact same_ne_bool rfl true hsame
    · rintro xs rfl
      obtain ⟨b, x, rfl, -⟩ := equate_flags_left.1 (matches_flags.1 hmatch)
      rfl
  · rintro ⟨hflags, hone⟩
    refine ⟨matches_of_equal ha hone, ?_⟩
    rcases equal_eq_true_iff.1 hb with ⟨xs, rfl, -⟩ | ⟨-, hsame⟩
    · exact absurd rfl (hflags xs)
    · exact hsame

section Calls

variable {σ : Type} {host : Host σ} {m : Machine σ} {u : Value}

theorem call_cons : Run.call host .cons [a, b] m = .ok u m ↔ u = .pair a b := by
  rw [Run.call_of_ne_display (by decide)]
  constructor
  · intro h
    cases h
    rfl
  · rintro rfl
    rfl

theorem call_isEqual : Run.call host .isEqual [a, b] m = .ok u m ↔ equal a b = .ok u := by
  rw [Run.call_of_check rfl (by decide)]
  exact Run.ofExcept_eq_ok.trans (and_iff_left rfl)

end Calls

/-- `equal?` answers for two pairs by what it says of their parts in these cases and in no others:
the first parts differ plainly, or they match and the second parts do; or both parts are equal, the
second are no flags, and the first are none either or a single flag. -/
theorem equal_pairs_congruent_iff {σ : Type} (host : Host σ) (m : Machine σ) (a b c d : Value) :
    (∃ p q t, Run.call host .cons [a, b] m = .ok p m ∧ Run.call host .cons [c, d] m = .ok q m ∧
      Run.call host .isEqual [p, q] m = .ok (.bool t) m ∧
      (t = true ↔ Run.call host .isEqual [a, c] m = .ok (.bool true) m ∧
        Run.call host .isEqual [b, d] m = .ok (.bool true) m)) ↔
    Differs a c ∨ Matches a c ∧ Differs b d ∨
      Run.call host .isEqual [a, c] m = .ok (.bool true) m ∧
        Run.call host .isEqual [b, d] m = .ok (.bool true) m ∧
        (∀ xs, b ≠ .flags xs) ∧ ∀ xs, a = .flags xs → xs.length = 1 := by
  simp only [call_cons, call_isEqual]
  have hno : Differs a c ∨ Matches a c ∧ Differs b d ↔
      equal (.pair a b) (.pair c d) = .ok (.bool false) := by
    rw [equal_pair_eq_bool, same_eq_false_iff, Differs]
  rw [← or_assoc, hno]
  constructor
  · rintro ⟨_, _, t, rfl, rfl, ht, hiff⟩
    cases t with
    | false => exact .inl ht
    | true =>
      obtain ⟨ha, hb⟩ := hiff.1 rfl
      exact .inr ⟨ha, hb, (same_pair_iff_of_equal ha hb).1 (equal_pair_eq_bool.1 ht)⟩
  · rintro (h | ⟨ha, hb, hparts⟩)
    · refine ⟨_, _, false, rfl, rfl, h, by simp, ?_⟩
      rintro ⟨ha, hb⟩
      rcases hno.2 h with hac | ⟨-, hbd⟩
      · exact (hac.equal_ne_true ha).elim
      · exact (hbd.equal_ne_true hb).elim
    · have hyes : equal (.pair a b) (.pair c d) = .ok (.bool true) :=
        equal_pair_eq_bool.2 ((same_pair_iff_of_equal ha hb).2 hparts)
      exact ⟨_, _, true, rfl, rfl, hyes, by simp [ha, hb]⟩

theorem equal_pairs_not_congruent :
    equal (.pair (.num 1) (.num 2)) (.pair (.num (.float 1.0)) (.num 2)) = .ok (.bool true) ∧
    equal (.num 1) (.num (.float 1.0)) = .ok (.bool false) ∧
    equal (.pair (.num 0) (.flags [true, false])) (.pair (.num 0) (.flags [true, false])) =
      .ok (.flags [true, true]) ∧
    equal (.pair (.flags [true, false]) .null) (.pair (.flags [true, false]) .null) =
      .error .badValue :=
  ⟨rfl, rfl, rfl, rfl⟩

end Script

end Jumpcut
