import Jumpcut.Flags.Range
import Jumpcut.Proofs.OutcomeLaws

namespace Jumpcut

theorem length_paint {α : Type} (lo hi : Nat) (v : α) (xs : List α) :
    (paint lo hi v xs).length = xs.length := by
  simp [paint]

theorem getElem?_paint {α : Type} (lo hi : Nat) (v : α) (xs : List α) (k : Nat) :
    (paint lo hi v xs)[k]? = if lo ≤ k ∧ k < hi then xs[k]?.map fun _ => v else xs[k]? := by
  rw [paint, List.getElem?_mapIdx]
  split
  · rfl
  · simp

namespace Range

open Outcome

/-- The positions that a range stands for in a list of `n` ticks: from the first one on, up to the
second. -/
def slice (tb : Rat) (n : Nat) (range : List String) : Except Fault (Nat × Nat) := do
  match ← range.mapM fun val => (tick tb n val).map (fromEnd n) with
  | a :: b :: _ => return (endpoint n a, endpoint n b)
  | _ => .error .outOfRange

def Readable (tb : Rat) (n : Nat) (range : List String) : Prop := ∃ s, slice tb n range = .ok s

/-- Whether a range covers a tick; one that cannot be read covers none. -/
def covers (tb : Rat) (n : Nat) (range : List String) (k : Nat) : Bool :=
  match slice tb n range with
  | .ok (lo, hi) => lo ≤ k ∧ k < hi
  | .error _ => false

variable {α : Type} {tb : Rat} {v : α} {xs ys : List α} {range : List String}
  {ranges : List (List String)}

theorem setOne_eq (tb : Rat) (v : α) (xs : List α) (range : List String) :
    setOne tb v xs range = (slice tb xs.length range).map fun s => paint s.1 s.2 v xs := by
  rw [setOne, slice]
  cases range.mapM fun val => (tick tb xs.length val).map (fromEnd xs.length) with
  | error e => rfl
  | ok ticks =>
    match ticks with
    | [] => rfl
    | [a] => rfl
    | a :: b :: rest => rfl

theorem length_setOne (h : setOne tb v xs range = .ok ys) : ys.length = xs.length := by
  rw [setOne_eq, map_eq_ok] at h
  obtain ⟨s, -, rfl⟩ := h
  exact length_paint _ _ _ _

theorem getElem?_setOne (h : setOne tb v xs range = .ok ys) {k : Nat} (hk : k < xs.length) :
    ys[k]? = if covers tb xs.length range k then some v else xs[k]? := by
  rw [setOne_eq, map_eq_ok] at h
  obtain ⟨⟨lo, hi⟩, hs, rfl⟩ := h
  simp [getElem?_paint, covers, hs, hk]

theorem length_setAll (h : setAll tb v ranges xs = .ok ys) : ys.length = xs.length := by
  induction ranges generalizing xs with
  | nil =>
    cases h
    rfl
  | cons r rs ih =>
    rw [setAll, List.foldlM_cons, bind_eq_ok] at h
    obtain ⟨zs, hzs, h⟩ := h
    rw [ih h, length_setOne hzs]

theorem getElem?_setAll (h : setAll tb v ranges xs = .ok ys) {k : Nat} (hk : k < xs.length) :
    ys[k]? = if ranges.any fun r => covers tb xs.length r k then some v else xs[k]? := by
  induction ranges generalizing xs with
  | nil =>
    cases h
    rfl
  | cons r rs ih =>
    rw [setAll, List.foldlM_cons, bind_eq_ok] at h
    obtain ⟨zs, hzs, h⟩ := h
    have hlen := length_setOne hzs
    rw [ih h (by omega), hlen, getElem?_setOne hzs hk, List.any_cons]
    cases covers tb xs.length r k with
    | true => simp
    | false => simp

theorem setOne_ok_iff : (∃ ys, setOne tb v xs range = .ok ys) ↔ Readable tb xs.length range := by
  rw [setOne_eq]
  constructor
  · rintro ⟨ys, h⟩
    obtain ⟨s, hs, -⟩ := map_eq_ok.1 h
    exact ⟨s, hs⟩
  · rintro ⟨s, hs⟩
    exact ⟨_, map_eq_ok.2 ⟨s, hs, rfl⟩⟩

theorem setAll_ok_iff :
    (∃ ys, setAll tb v ranges xs = .ok ys) ↔ ∀ r ∈ ranges, Readable tb xs.length r := by
  induction ranges generalizing xs with
  | nil => exact ⟨fun _ => nofun, fun _ => ⟨xs, rfl⟩⟩
  | cons r rs ih =>
    simp only [setAll, List.foldlM_cons, bind_eq_ok, List.forall_mem_cons] at ih ⊢
    constructor
    · rintro ⟨ys, zs, hzs, hys⟩
      have htail := ih.1 ⟨ys, hys⟩
      rw [length_setOne hzs] at htail
      exact ⟨setOne_ok_iff.1 ⟨zs, hzs⟩, htail⟩
    · rintro ⟨hr, hrs⟩
      obtain ⟨zs, hzs⟩ := setOne_ok_iff.2 hr
      rw [← length_setOne hzs] at hrs
      obtain ⟨ys, hys⟩ := ih.2 hrs
      exact ⟨ys, zs, hzs, hys⟩

end Range

end Jumpcut
