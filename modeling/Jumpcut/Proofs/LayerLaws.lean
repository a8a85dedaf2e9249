import Jumpcut.Timeline.Basic
import Mathlib.Data.List.Basic

namespace Jumpcut

open List

namespace Layers

def single (items : List VisualItem) : List (List VisualItem) :=
  if items.isEmpty then [] else [items]

def shown (x : List Clip × Source) : List VisualItem :=
  if x.2.videos.isEmpty then [] else x.1.map fun c => .clip c.toVideo

def heard (k : Nat) (x : List Clip × Source) : List AudioClip :=
  if k < x.2.audios.length then x.1.map (·.toAudio k) else []

variable {items : List VisualItem} {a : List (List AudioClip)} {cs : List Clip}
  {xs : List (List Clip × Source)} {streams : Nat}

theorem foldl_addVideo :
    cs.foldl addVideo (single items) = single (items ++ cs.map fun c => .clip c.toVideo) := by
  induction cs generalizing items with
  | nil => rw [map_nil, append_nil, foldl_nil]
  | cons c cs ih =>
    have hadd : addVideo (single items) c = single (items ++ [.clip c.toVideo]) := by
      cases items <;> rfl
    rw [foldl_cons, hadd, ih, append_assoc, map_cons, singleton_append]

theorem getElem?_addAudio (c : Clip) (k : Nat) :
    (addAudio streams a c)[k]? = a[k]?.map (· ++ if k < streams then [c.toAudio k] else []) := by
  induction streams with
  | zero => simp [addAudio]
  | succ n ih =>
    rw [addAudio, range_succ, foldl_append, ← addAudio, foldl_cons, foldl_nil,
      getElem?_modify, ih]
    by_cases hk : n = k
    · simp [hk]
    · have hlt : k < n + 1 ↔ k < n := by omega
      simp [hk, hlt]

theorem getElem?_foldl_addAudio (k : Nat) : (cs.foldl (addAudio streams) a)[k]? =
    a[k]?.map (· ++ if k < streams then cs.map (·.toAudio k) else []) := by
  induction cs generalizing a with
  | nil => simp
  | cons c cs ih =>
    rw [foldl_cons, ih, getElem?_addAudio, Option.map_map]
    split <;> simp [Function.comp_def]

theorem foldl_addInput :
    (xs.foldl addInput (single items, a)).1 = single (items ++ xs.flatMap shown) ∧
      ∀ k : Nat, (xs.foldl addInput (single items, a)).2[k]? =
        a[k]?.map (· ++ xs.flatMap (heard k)) := by
  induction xs generalizing items a with
  | nil => simp
  | cons x xs ih =>
    have hinput : addInput (single items, a) x =
        (single (items ++ shown x), x.1.foldl (addAudio x.2.audios.length) a) := by
      rw [addInput, shown]
      split
      · rw [append_nil]
      · rw [foldl_addVideo]
    rw [foldl_cons, hinput, flatMap_cons, ← append_assoc]
    refine ⟨ih.1, fun k => ?_⟩
    rw [ih.2, getElem?_foldl_addAudio, ← heard, Option.map_map, flatMap_cons]
    simp [Function.comp_def]

end Layers

open Layers

theorem layersOf_eq (xs : List (List Clip × Source)) :
    layersOf (xs.map Prod.fst) (xs.map Prod.snd) = (single (xs.flatMap shown),
      (range ((xs.map (·.2.audios.length)).foldl max 0)).map fun k => xs.flatMap (heard k)) := by
  obtain ⟨hv, ha⟩ := @foldl_addInput []
    (replicate ((xs.map (·.2.audios.length)).foldl max 0) []) xs
  rw [layersOf, zip_map', map_id', map_map]
  refine Prod.ext hv (ext_getElem? fun k => (ha k).trans ?_)
  rw [getElem?_map, getElem?_replicate]
  split
  · next hk => rw [getElem?_range hk]; rfl
  · next hk => rw [getElem?_eq_none (by rw [length_range]; omega)]; rfl

/-- Every clip stands once, with its own times, on the layers of the streams that its input has. -/
theorem layersOf_concatenated (xs : List (List Clip × Source)) :
    ∃ v a, layersOf (xs.map Prod.fst) (xs.map Prod.snd) = (v, a) ∧
      v.length ≤ 1 ∧ [] ∉ v ∧ v.flatten = xs.flatMap shown ∧
      (∀ n, a.length ≤ n ↔ ∀ x ∈ xs, x.2.audios.length ≤ n) ∧
      (∀ k < a.length, a[k]? = some (xs.flatMap (heard k))) ∧
      ∀ (c : Clip) (k : Nat),
        (c.toVideo.start, c.toVideo.dur, c.toVideo.offset, c.toVideo.speed) =
          (c.start, c.dur, c.offset, c.speed) ∧
        ((c.toAudio k).start, (c.toAudio k).dur, (c.toAudio k).offset, (c.toAudio k).speed) =
          (c.start, c.dur, c.offset, c.speed) ∧ (c.toAudio k).stream = k := by
  refine ⟨_, _, layersOf_eq xs, ?_, ?_, ?_, fun n => ?_, fun k hk => ?_, fun c k => ⟨rfl, rfl, rfl⟩⟩
  · rw [single]
    split <;> simp
  · rw [single]
    split <;> simp_all
  · rw [single]
    split <;> simp_all
  · rw [length_map, length_range, max?_le_iff max?_cons', forall_mem_cons,
      forall_mem_map]
    exact and_iff_right (Nat.zero_le n)
  · rw [length_map] at hk
    rw [getElem?_map, getElem?_eq_getElem hk, getElem_range, Option.map_some]

end Jumpcut
