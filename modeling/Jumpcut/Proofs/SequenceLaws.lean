import Jumpcut.Edit.Sequence
import Jumpcut.Proofs.ClipLaws

namespace Jumpcut.Chunk

open Outcome Setting List

/-- A chunk list that covers a source of `n` ticks and keeps nothing but one chunk. -/
structure Isolates (n : Int) (c : Chunk) (cs : List Chunk) : Prop where
  first : cs.head?.map start = some 0
  meet : cs.IsChain fun d e => d.stop = e.start
  lasting : ∀ d ∈ cs, d.start < d.stop
  last : cs.getLast?.map stop = some n
  kept : kept cs = [c]

section

variable (c : Chunk) (n : Int)

theorem padded_eq : ∃ before after, c.padded n = before ++ c :: after ∧
    (before = [] ∧ c.start = 0 ∨ before = [⟨0, c.start, cutSpeed⟩] ∧ c.start ≠ 0) ∧
    (after = [] ∧ c.stop = n ∨ after = [⟨c.stop, n, cutSpeed⟩] ∧ c.stop ≠ n) := by
  refine ⟨_, _, append_assoc _ [c] _, ?_, ?_⟩
  · by_cases h : c.start = 0
    · exact .inl ⟨if_pos h, h⟩
    · exact .inr ⟨if_neg h, h⟩
  · by_cases h : c.stop = n
    · exact .inl ⟨if_pos h, h⟩
    · exact .inr ⟨if_neg h, h⟩

theorem getLast_padded : (c.padded n).getLast?.map stop = some n := by
  obtain ⟨before, after, heq, -, hafter⟩ := c.padded_eq n
  rw [heq]
  rcases hafter with ⟨rfl, hstop⟩ | ⟨rfl, -⟩
  · simp [hstop]
  · simp

theorem isCut_cutSpeed (lo hi : Int) : isCut ⟨lo, hi, cutSpeed⟩ := by
  change Number.eqv cutSpeed 99999 = true
  decide +kernel

theorem isolates_padded_iff (hcut : ¬ c.isCut) (hstart : 0 ≤ c.start) (hlt : c.start < c.stop) :
    Isolates n c (c.padded n) ↔ c.stop ≤ n := by
  constructor
  · intro h
    obtain ⟨before, after, heq, -, ⟨-, hstop⟩ | ⟨rfl, -⟩⟩ := c.padded_eq n
    · exact hstop.le
    · have hlast := h.lasting ⟨c.stop, n, cutSpeed⟩ (by rw [heq]; simp)
      exact hlast.le
  · intro hle
    obtain ⟨before, after, heq, hbefore, hafter⟩ := c.padded_eq n
    refine ⟨?_, ?_, ?_, c.getLast_padded n, ?_⟩ <;> rw [heq]
    · rcases hbefore with ⟨rfl, hzero⟩ | ⟨rfl, -⟩
      · simp [hzero]
      · rfl
    · rcases hbefore with ⟨rfl, -⟩ | ⟨rfl, -⟩ <;> rcases hafter with ⟨rfl, -⟩ | ⟨rfl, -⟩ <;> simp
    · intro d hd
      rcases mem_append.1 hd with hd | hd
      · rcases hbefore with ⟨rfl, -⟩ | ⟨rfl, hne⟩
        · cases hd
        · cases mem_singleton.1 hd
          exact lt_of_le_of_ne hstart hne.symm
      · rcases mem_cons.1 hd with rfl | hd
        · exact hlt
        · rcases hafter with ⟨rfl, -⟩ | ⟨rfl, hne⟩
          · cases hd
          · cases mem_singleton.1 hd
            exact lt_of_le_of_ne hle hne
    · rcases hbefore with ⟨rfl, -⟩ | ⟨rfl, -⟩ <;> rcases hafter with ⟨rfl, -⟩ | ⟨rfl, -⟩ <;>
        simp [kept, isCut_cutSpeed, hcut]

end

/-- A clip sequence has one list for each kept chunk. All lists end one tick before the source does,
so none of them covers it. Up to that tick the list of a chunk is as it should be, but that of the
chunk which ends with the source goes one tick back. -/
theorem sequence_isolates_iff {n : Int} {cs : List Chunk} (h : Tiles 0 n cs) (hne : cs ≠ []) :
    ∃ lists, sequence cs = .ok lists ∧
      Forall₂ (fun c l => l.getLast?.map stop = some (n - 1) ∧
        (Isolates (n - 1) c l ↔ c.stop ≠ n) ∧
        (c.stop = n → l.getLast?.map length = some (-1))) (kept cs) lists ∧
      (Forall₂ (Isolates n) (kept cs) lists ↔ kept cs = []) := by
  have hlast : cs.getLast? = some (cs.getLast hne) := getLast?_eq_some_getLast hne
  have hend : (cs.getLast hne).stop = n := h.stop_getLast hlast
  have hlists : sequence cs = .ok ((kept cs).map (·.padded (n - 1))) := by
    rw [sequence, hlast]
    simp only [hend]
    rfl
  refine ⟨_, hlists, ?_, ?_⟩
  · rw [forall₂_map_right_iff, forall₂_same]
    intro c hc
    obtain ⟨hmem, hcut⟩ := mem_filter.1 hc
    obtain ⟨hstart, hlt⟩ := h.start_le hmem
    have hstop := h.stop_le hmem
    refine ⟨c.getLast_padded _, ?_, ?_⟩
    · rw [isolates_padded_iff c (n - 1) (by simpa using hcut) hstart hlt]
      omega
    · intro hc
      obtain ⟨before, after, heq, -, ⟨-, hnot⟩ | ⟨rfl, -⟩⟩ := c.padded_eq (n - 1)
      · omega
      · have hback : length ⟨c.stop, n - 1, cutSpeed⟩ = -1 := by
          change n - 1 - c.stop = -1
          omega
        rw [heq]
        simp [hback]
  · constructor
    · intro hall
      cases hk : kept cs with
      | nil => rfl
      | cons c ks =>
        rw [hk, map_cons, forall₂_cons] at hall
        have hlast := hall.1.last
        rw [getLast_padded, Option.some_inj] at hlast
        omega
    · intro hk
      simp [hk]

theorem sequence_isolates_iff_two_parts :
    Tiles 0 9 [⟨0, 2, 99999⟩, ⟨2, 5, 1⟩, ⟨5, 7, 99999⟩, ⟨7, 9, 2⟩] ∧
      ∃ l m, sequence [⟨0, 2, 99999⟩, ⟨2, 5, 1⟩, ⟨5, 7, 99999⟩, ⟨7, 9, 2⟩] = .ok [l, m] ∧
        Isolates 8 ⟨2, 5, 1⟩ l ∧ ¬ Isolates 8 ⟨7, 9, 2⟩ m := by
  have htiles : Tiles 0 9 [⟨0, 2, 99999⟩, ⟨2, 5, 1⟩, ⟨5, 7, 99999⟩, ⟨7, 9, 2⟩] := by simp [Tiles]
  have hkept : kept [⟨0, 2, 99999⟩, ⟨2, 5, 1⟩, ⟨5, 7, 99999⟩, ⟨7, 9, 2⟩] =
      [⟨2, 5, 1⟩, ⟨7, 9, 2⟩] := by rfl
  obtain ⟨lists, hlists, hall, -⟩ := sequence_isolates_iff htiles (by simp)
  rw [hkept] at hall
  cases hall with
  | cons hl hall =>
    cases hall with
    | cons hm hall =>
      cases hall
      exact ⟨htiles, _, _, hlists, hl.2.1.2 (by decide), fun h => hm.2.1.1 h rfl⟩

theorem sequence_whole_backwards :
    Tiles 0 10 [⟨0, 10, 1⟩] ∧
    (sequence [⟨0, 10, 1⟩]).map (·.map (·.map fun c => (c.start, c.stop, c.isCut))) =
      .ok [[(0, 10, false), (10, 9, true)]] :=
  ⟨by simp [Tiles], by decide +kernel⟩

end Jumpcut.Chunk
