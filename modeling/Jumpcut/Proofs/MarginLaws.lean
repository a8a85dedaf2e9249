import Jumpcut.Proofs.RangeLaws
import Jumpcut.Proofs.RunLaws

namespace Jumpcut

theorem paint_of_le {α : Type} {lo hi : Nat} (h : hi ≤ lo) (v : α) (xs : List α) :
    paint lo hi v xs = xs := by
  refine List.ext_getElem? fun k => ?_
  rw [getElem?_paint, if_neg (by omega)]

namespace Flags

theorem length_foldl {f : Flags → Nat → Flags} (hf : ∀ ys i, (f ys i).length = ys.length)
    (xs : Flags) (is : List Nat) : (is.foldl f xs).length = xs.length := by
  induction is generalizing xs with
  | nil => rfl
  | cons i is ih => rw [List.foldl_cons, ih, hf]

theorem length_margin (start stop : Int) (xs : Flags) :
    (margin start stop xs).length = xs.length := by
  rw [margin, length_foldl, length_foldl]
  · intro ys i
    split
    · exact length_paint _ _ _ _
    · split
      · exact length_paint _ _ _ _
      · rfl
  · intro ys i
    split
    · exact length_paint _ _ _ _
    · split
      · exact length_paint _ _ _ _
      · rfl

variable {v : Bool} {xs : Flags} {a b i j k : Nat}

theorem getElem?_foldl_paint {lo hi : Nat → Nat} {is : List Nat} :
    (is.foldl (fun ys i => paint (lo i) (hi i) v ys) xs)[k]? = some v ↔
      xs[k]? = some v ∨ k < xs.length ∧ ∃ i ∈ is, lo i ≤ k ∧ k < hi i := by
  induction is generalizing xs with
  | nil => simp
  | cons i is ih =>
    rw [List.foldl_cons, ih, getElem?_paint, length_paint, List.exists_mem_cons_iff]
    split
    · next hin =>
      have hnew : (xs[k]?.map fun _ => v) = some v ↔ k < xs.length := by
        constructor
        · intro h
          obtain ⟨x, hx, -⟩ := Option.map_eq_some_iff.1 h
          exact lt_length_of_getElem? hx
        · intro hk
          rw [List.getElem?_eq_getElem hk, Option.map_some]
      rw [hnew]
      constructor
      · rintro (hk | ⟨hk, -⟩)
        · exact .inr ⟨hk, .inl hin⟩
        · exact .inr ⟨hk, .inl hin⟩
      · rintro (hv | ⟨hk, -⟩)
        · exact .inl (lt_length_of_getElem? hv)
        · exact .inl hk
    · next hout => simp only [hout, false_or]

theorem mem_edgesFrom {prev : Bool} :
    j ∈ edgesFrom v k prev xs ↔
      ∃ i, j = k + i ∧ (prev :: xs)[i]? = some (!v) ∧ xs[i]? = some v := by
  induction xs generalizing k prev with
  | nil => simp [edgesFrom]
  | cons x xs ih =>
    have hhead : x ≠ prev ∧ x = v ↔ prev = !v ∧ x = v := by
      cases x <;> cases prev <;> cases v <;> simp
    rw [edgesFrom, ← Nat.or_exists_add_one]
    simp only [hhead]
    split
    · next h => simp [ih, h, Nat.add_assoc, Nat.add_comm 1]
    · next h => simp [ih, h, Nat.add_assoc, Nat.add_comm 1]

theorem mem_edges : j ∈ edges v xs ↔ ∃ i, j = i + 1 ∧ xs[i]? = some (!v) ∧ xs[i + 1]? = some v := by
  cases xs with
  | nil => simp [edges]
  | cons x xs => simp only [edges, mem_edgesFrom, Nat.add_comm 1, List.getElem?_cons_succ]

theorem exists_edge (hab : a ≤ b) (ha : xs[a]? = some (!v)) (hb : xs[b]? = some v) :
    ∃ i ∈ edges v xs, a < i ∧ i ≤ b := by
  induction b, hab using Nat.le_induction with
  | base => simp [ha] at hb
  | succ b hab ih =>
    by_cases hv : xs[b]? = some v
    · obtain ⟨i, hi, hai, hib⟩ := ih hv
      exact ⟨i, hi, hai, by omega⟩
    · have hlt := lt_length_of_getElem? hb
      have hother := (getElem?_eq_not_iff (by omega)).2 hv
      exact ⟨b + 1, mem_edges.2 ⟨b, rfl, hother, hb⟩, by omega, Nat.le_refl _⟩

/-- A tick from which a tick of the value is at most `l` ticks ahead or at most `r` ticks back. -/
def Near (v : Bool) (l r : Nat) (xs : Flags) (k : Nat) : Prop :=
  ∃ j < xs.length, k ≤ j + r ∧ j ≤ k + l ∧ xs[j]? = some v

theorem near_iff_edges {l r : Nat} (hk : k < xs.length) :
    Near v l r xs k ↔
      xs[k]? = some v ∨ (∃ i ∈ edges v xs, i - l ≤ k ∧ k < i) ∨
        ∃ i ∈ edges (!v) xs, i ≤ k ∧ k < min (i + r) xs.length := by
  constructor
  · rintro ⟨j, hj, hback, hahead, hv⟩
    by_cases hkv : xs[k]? = some v
    · exact .inl hkv
    · have hother := (getElem?_eq_not_iff hk).2 hkv
      right
      rcases Nat.le_total k j with hle | hle
      · obtain ⟨i, hi, hki, hij⟩ := exists_edge hle hother hv
        exact .inl ⟨i, hi, by omega, hki⟩
      · obtain ⟨i, hi, hji, hik⟩ := exists_edge hle (by simpa using hv) hother
        exact .inr ⟨i, hi, hik, by omega⟩
  · rintro (hv | ⟨i, hi, hlo, hhi⟩ | ⟨i, hi, hlo, hhi⟩)
    · exact ⟨k, hk, by omega, by omega, hv⟩
    · obtain ⟨j, rfl, -, hv⟩ := mem_edges.1 hi
      exact ⟨j + 1, lt_length_of_getElem? hv, by omega, by omega, hv⟩
    · obtain ⟨j, rfl, hv, -⟩ := mem_edges.1 hi
      rw [Bool.not_not] at hv
      exact ⟨j, lt_length_of_getElem? hv, by omega, by omega, hv⟩

theorem ite_sign_natCast {α : Type} {m : Nat} {x y z : α} (h : m = 0 → x = z) :
    (if 0 < (m : Int) then x else if (m : Int) < 0 then y else z) = x := by
  split
  · rfl
  · rw [if_neg (by omega), h (by omega)]

theorem ite_sign_neg_natCast {α : Type} {m : Nat} {x y z : α} (h : m = 0 → y = z) :
    (if 0 < -(m : Int) then x else if -(m : Int) < 0 then y else z) = y := by
  rw [if_neg (by omega)]
  split
  · rfl
  · rw [h (by omega)]

theorem margin_wide (p q : Nat) (xs : Flags) :
    margin p q xs = (edges false xs).foldl (fun ys i => paint i (min (i + q) xs.length) true ys)
      ((edges true xs).foldl (fun ys i => paint (i - p) i true ys) xs) := by
  unfold margin
  extract_lets starts stops n early late
  have hearly : early = fun ys i => paint (i - p) i true ys := by
    funext ys i
    dsimp only [early]
    rw [ite_sign_natCast fun hp => paint_of_le (by omega) _ _]
    congr 1
    omega
  have hlate : late = fun ys i => paint i (min (i + q) xs.length) true ys := by
    funext ys i
    dsimp only [late, n]
    rw [ite_sign_natCast fun hq => paint_of_le (by omega) _ _]
    congr 1
    omega
  rw [hearly, hlate]

theorem margin_narrow (p q : Nat) (xs : Flags) :
    margin (-p) (-q) xs = (edges false xs).foldl (fun ys i => paint (i - q) i false ys)
      ((edges true xs).foldl (fun ys i => paint i (min (i + p) xs.length) false ys) xs) := by
  unfold margin
  extract_lets starts stops n early late
  have hearly : early = fun ys i => paint i (min (i + p) xs.length) false ys := by
    funext ys i
    dsimp only [early, n]
    rw [ite_sign_neg_natCast fun hp => paint_of_le (by omega) _ _]
    congr 1
    omega
  have hlate : late = fun ys i => paint (i - q) i false ys := by
    funext ys i
    dsimp only [late]
    rw [ite_sign_neg_natCast fun hq => paint_of_le (by omega) _ _]
    congr 1
    omega
  rw [hearly, hlate]

theorem getElem?_margin_wide (p q : Nat) (hk : k < xs.length) :
    (margin p q xs)[k]? = some true ↔ Near true p q xs k := by
  rw [margin_wide, getElem?_foldl_paint, getElem?_foldl_paint, near_iff_edges hk]
  simp only [length_foldl fun ys i => length_paint _ _ _ ys, hk, true_and, or_assoc, Bool.not_true]

theorem getElem?_margin_narrow (p q : Nat) (hk : k < xs.length) :
    (margin (-p) (-q) xs)[k]? = some false ↔ Near false q p xs k := by
  rw [margin_narrow, getElem?_foldl_paint, getElem?_foldl_paint, near_iff_edges hk]
  simp only [length_foldl fun ys i => length_paint _ _ _ ys, hk, true_and, Bool.not_false]
  exact or_assoc.trans (or_congr_right or_comm)

/-- Wide margins keep exactly the ticks that have a kept one in their window, and narrow ones those
that have only kept ones there. -/
theorem margin_windows (p q : Nat) (hk : k < xs.length) :
    ((margin p q xs)[k]? = some true ↔
        ∃ j < xs.length, k ≤ j + q ∧ j ≤ k + p ∧ xs[j]? = some true) ∧
      ((margin (-p) (-q) xs)[k]? = some true ↔
        ∀ j < xs.length, k ≤ j + p → j ≤ k + q → xs[j]? = some true) := by
  refine ⟨getElem?_margin_wide p q hk, ?_⟩
  have hlen : k < (margin (-p) (-q) xs).length := by rwa [length_margin]
  rw [← Bool.not_false, getElem?_eq_not_iff hlen, Ne, getElem?_margin_narrow p q hk, Near]
  constructor
  · intro hnone j hj hback hahead
    exact (getElem?_eq_not_iff hj).2 fun hfalse => hnone ⟨j, hj, hback, hahead, hfalse⟩
  · rintro hall ⟨j, hj, hback, hahead, hfalse⟩
    rw [hall j hj hback hahead] at hfalse
    cases hfalse

def twoClips : Flags := [false, false, true, true, false, false, false, false, true, false]

theorem margin_windows_twoClips :
    5 < twoClips.length ∧
      ((margin ((1 : Nat) : Int) ((2 : Nat) : Int) twoClips)[5]? = some true ↔
        ∃ j < twoClips.length, 5 ≤ j + 2 ∧ j ≤ 5 + 1 ∧ twoClips[j]? = some true) ∧
      ((margin (-((1 : Nat) : Int)) (-((2 : Nat) : Int)) twoClips)[5]? = some true ↔
        ∀ j < twoClips.length, 5 ≤ j + 1 → j ≤ 5 + 2 → twoClips[j]? = some true) :=
  ⟨by decide, margin_windows 1 2 (by decide)⟩

example :
    margin 1 2 twoClips = [false, true, true, true, true, true, false, true, true, true] := by
  decide

end Flags

end Jumpcut
