import Jumpcut.Chunk
import Jumpcut.Proofs.NumberLaws
import Jumpcut.Proofs.OutcomeLaws
import Mathlib.Algebra.BigOperators.Group.List.Basic
import Mathlib.Data.List.Chain

namespace Jumpcut.Chunk

open Outcome List

/-- The chunks cover the ticks from `lo` up to `hi`: each begins where the one before it ends, and
none is empty. -/
def Tiles (lo hi : Int) : List Chunk → Prop
  | [] => lo = hi
  | c :: cs => c.start = lo ∧ c.start < c.stop ∧ Tiles c.stop hi cs

def speeds (cs : List Chunk) : List Number :=
  cs.flatMap fun c => replicate c.length.toNat c.speed

def fill (vs : List Int) (cs : List Chunk) : List Int :=
  (zipWith (fun v c => replicate c.length.toNat v) vs cs).flatten

@[simp] theorem speeds_nil : speeds [] = [] := rfl

@[simp] theorem speeds_cons (c : Chunk) (cs : List Chunk) :
    speeds (c :: cs) = replicate c.length.toNat c.speed ++ speeds cs := rfl

@[simp] theorem speeds_append (cs ds : List Chunk) : speeds (cs ++ ds) = speeds cs ++ speeds ds :=
  flatMap_append

@[simp] theorem fill_cons (v : Int) (vs : List Int) (c : Chunk) (cs : List Chunk) :
    fill (v :: vs) (c :: cs) = replicate c.length.toNat v ++ fill vs cs := rfl

variable {lo hi v : Int} {cs : List Chunk} {c : Chunk} {n : Nat} {xs cells : List Int}
  {css : List (List Chunk)} {ts : List Track}

theorem Tiles.append {mid : Int} {ds : List Chunk} (h : Tiles lo mid cs) (h' : Tiles mid hi ds) :
    Tiles lo hi (cs ++ ds) := by
  induction cs generalizing lo with
  | nil =>
    cases h
    exact h'
  | cons c cs ih => exact ⟨h.1, h.2.1, ih h.2.2⟩

section

variable (h : Tiles lo hi cs)

include h

theorem Tiles.map_shift (n : Int) : Tiles (lo + n) (hi + n) (cs.map (shift n)) := by
  induction cs generalizing lo with
  | nil => exact congrArg (· + n) h
  | cons c cs ih =>
    obtain ⟨hstart, hlt, htail⟩ := h
    refine ⟨congrArg (· + n) hstart, ?_, ih htail⟩
    exact Int.add_lt_add_right hlt n

theorem Tiles.stop_getLast (hc : cs.getLast? = some c) : c.stop = hi := by
  induction cs generalizing lo with
  | nil => cases hc
  | cons d ds ih =>
    cases ds with
    | nil =>
      cases hc
      exact h.2.2
    | cons e es => exact ih h.2.2 (by simpa using hc)

theorem Tiles.start_le (hc : c ∈ cs) : lo ≤ c.start ∧ c.start < c.stop := by
  induction cs generalizing lo with
  | nil => cases hc
  | cons d ds ih =>
    obtain ⟨hstart, hlt, htail⟩ := h
    rcases mem_cons.1 hc with rfl | hc
    · exact ⟨hstart.ge, hlt⟩
    · have := ih htail hc
      omega

theorem Tiles.le : lo ≤ hi := by
  induction cs generalizing lo with
  | nil => exact le_of_eq h
  | cons c cs ih =>
    obtain ⟨rfl, hlt, htail⟩ := h
    exact hlt.le.trans (ih htail)

theorem Tiles.stop_le (hc : c ∈ cs) : c.stop ≤ hi := by
  induction cs generalizing lo with
  | nil => cases hc
  | cons d ds ih =>
    rcases mem_cons.1 hc with rfl | hc
    · exact h.2.2.le
    · exact ih h.2.2 hc

theorem Tiles.ordered : cs.Pairwise fun c d => c.stop ≤ d.start := by
  induction cs generalizing lo with
  | nil => exact .nil
  | cons c cs ih => exact .cons (fun d hd => (h.2.2.start_le hd).1) (ih h.2.2)

end

def Holds (c : Chunk) (tick : Int) : Prop := c.start ≤ tick ∧ tick < c.stop

instance (c : Chunk) (tick : Int) : Decidable (c.Holds tick) := inferInstanceAs (Decidable (_ ∧ _))

def speedOn (cs : List Chunk) (tick : Int) : Option Number :=
  (cs.find? fun c => c.Holds tick).map speed

theorem Tiles.speedOn_eq (h : Tiles lo hi cs) (k : Nat) :
    speedOn cs (lo + k) = (speeds cs)[k]? := by
  induction cs generalizing lo k with
  | nil => rfl
  | cons c cs ih =>
    obtain ⟨hstart, hlt, htail⟩ := h
    rw [speedOn, speeds_cons, find?_cons]
    by_cases hk : k < c.length.toNat
    · have hin : c.Holds (lo + k) := by
        simp only [length] at hk
        constructor <;> omega
      simp [hin, getElem?_append, hk]
    · have hout : ¬ c.Holds (lo + k) := by
        simp only [length] at hk
        rintro ⟨-, hlt'⟩
        omega
      have hpos : lo + (k : Int) = c.stop + ((k - c.length.toNat : Nat) : Int) := by
        simp only [length] at hk ⊢
        omega
      simp only [hout, decide_false, getElem?_append, length_replicate, hk, if_false]
      rw [hpos]
      exact ih htail _

theorem Tiles.speedOn_start (h : Tiles lo hi cs) (hc : c ∈ cs) :
    speedOn cs c.start = some c.speed := by
  induction cs generalizing lo with
  | nil => cases hc
  | cons d ds ih =>
    obtain ⟨-, hlt, htail⟩ := h
    rw [speedOn, find?_cons]
    rcases mem_cons.1 hc with rfl | hc
    · have hin : c.Holds c.start := ⟨le_rfl, hlt⟩
      simp [hin]
    · have hout : ¬ d.Holds c.start := fun hin => by
        have := (htail.start_le hc).1
        have := hin.2
        omega
      simp only [hout, decide_false]
      exact ih htail hc

/-- `cs` are the runs of the cells, laid from tick `lo` on; `vs` are the values of the runs. -/
structure RunCode (speedOf : Int → Except Fault Number) (lo : Int) (cells vs : List Int)
    (cs : List Chunk) : Prop where
  tiles : Tiles lo (lo + cells.length) cs
  values : Forall₂ (fun v c => speedOf v = .ok c.speed) vs cs
  apart : vs.IsChain (· ≠ ·)
  expand : fill vs cs = cells

variable {speedOf : Int → Except Fault Number}

theorem RunCode.single {s : Number} (hn : 0 < n) (hs : speedOf v = .ok s) :
    RunCode speedOf lo (replicate n v) [v] [⟨lo, lo + n, s⟩] where
  tiles := by simp [Tiles, hn]
  values := .cons hs .nil
  apart := .singleton v
  expand := by simp [fill, length]

theorem RunCode.cons {lo v w : Int} {n : Nat} {s : Number} {cells ws : List Int} {cs : List Chunk}
    (hn : 0 < n) (hs : speedOf v = .ok s) (hne : v ≠ w)
    (h : RunCode speedOf (lo + n) cells (w :: ws) cs) :
    RunCode speedOf lo (replicate n v ++ cells) (v :: w :: ws) (⟨lo, lo + n, s⟩ :: cs) where
  tiles := by
    refine ⟨rfl, by simpa using hn, ?_⟩
    have heq : lo + ((replicate n v ++ cells).length : Int) = lo + n + cells.length := by
      simp [Int.add_assoc]
    rw [heq]
    exact h.tiles
  values := .cons hs h.values
  apart := .cons_cons hne h.apart
  expand := by simp [length, h.expand]

theorem runCode_ofRunsFrom {start : Int} (hn : 0 < n)
    (h : ofRunsFrom speedOf start (start + n) v xs = .ok cs) :
    ∃ vs, RunCode speedOf start (replicate n v ++ xs) (v :: vs) cs := by
  -- The run that is open has `n` cells by now. They are not in `xs` any more, so the code is that
  -- of these cells and `xs` together.
  induction xs generalizing start v n cs with
  | nil =>
    simp only [ofRunsFrom, bind_eq_ok, pure_eq_ok] at h
    obtain ⟨s, hs, rfl⟩ := h
    exact ⟨[], by simpa using RunCode.single hn hs⟩
  | cons x xs ih =>
    rw [ofRunsFrom] at h
    split at h
    · next heq =>
      subst heq
      have hnext : start + (n : Int) + 1 = start + ((n + 1 : Nat) : Int) := by push_cast; ring
      rw [hnext] at h
      obtain ⟨vs, hvs⟩ := ih (Nat.succ_pos n) h
      refine ⟨vs, ?_⟩
      rwa [replicate_succ', append_assoc] at hvs
    · next hne =>
      simp only [bind_eq_ok, pure_eq_ok] at h
      obtain ⟨s, hs, ds, hds, rfl⟩ := h
      obtain ⟨vs, hvs⟩ := ih Nat.one_pos (by simpa using hds)
      exact ⟨x :: vs, RunCode.cons hn hs (Ne.symm hne) hvs⟩

theorem runCode_ofRuns (h : ofRuns speedOf cells = .ok cs) :
    2 ≤ cells.length ∧ ∃ vs, RunCode speedOf 0 cells vs cs := by
  rw [ofRuns.eq_def] at h
  split at h
  · next x y xs =>
    have h' : ofRunsFrom speedOf 0 (0 + (1 : Nat)) x (y :: xs) = .ok cs := h
    obtain ⟨vs, hvs⟩ := runCode_ofRunsFrom Nat.one_pos h'
    exact ⟨by simp, x :: vs, hvs⟩
  · cases h

theorem ofRunsFrom_ok {start next : Int} (h : ∀ x ∈ v :: xs, ∃ s, speedOf x = .ok s) :
    ∃ cs, ofRunsFrom speedOf start next v xs = .ok cs := by
  induction xs generalizing start next v with
  | nil =>
    obtain ⟨s, hs⟩ := h v (by simp)
    exact ⟨_, by simp only [ofRunsFrom, hs]; rfl⟩
  | cons x xs ih =>
    rw [ofRunsFrom]
    split
    · next heq => exact ih fun y hy => h y (by simp at hy ⊢; tauto)
    · obtain ⟨s, hs⟩ := h v (by simp)
      obtain ⟨cs, hcs⟩ := @ih x next (next + 1) fun y hy => h y (mem_cons_of_mem v hy)
      exact ⟨_, by rw [hs, hcs]; rfl⟩

theorem ofRuns_ok (hlen : 2 ≤ cells.length) (h : ∀ v ∈ cells, ∃ s, speedOf v = .ok s) :
    ∃ cs, ofRuns speedOf cells = .ok cs := by
  match cells, hlen with
  | x :: y :: xs, _ => exact ofRunsFrom_ok h

theorem RunCode.speeds_eq {vs : List Int} (h : RunCode speedOf lo cells vs cs) :
    (speeds cs).map .ok = cells.map speedOf := by
  rw [← h.expand]
  have hvals := h.values
  clear h
  induction hvals with
  | nil => rfl
  | cons hv _ ih => simp [ih, hv]

@[simp] theorem speeds_map_shift (n : Int) (cs : List Chunk) :
    speeds (cs.map (shift n)) = speeds cs := by
  induction cs with
  | nil => rfl
  | cons c cs ih => simp [ih, shift, length]

@[simp] theorem speeds_mergeFrom (n : Int) (css : List (List Chunk)) :
    speeds (mergeFrom n css) = css.flatMap speeds := by
  induction css generalizing n with
  | nil => rfl
  | cons cs css ih => simp [mergeFrom, ih]

@[simp] theorem merge_singleton (cs : List Chunk) : merge [cs] = cs := by
  have hshift : shift 0 = id := by
    funext c
    simp [shift]
  simp [merge, mergeFrom, hshift]

theorem mergeFrom_cons {n m : Int} (h : Tiles 0 m cs) (css : List (List Chunk)) :
    mergeFrom n (cs :: css) = cs.map (shift n) ++ mergeFrom (n + m) css := by
  rw [mergeFrom]
  cases hlast : cs.getLast? with
  | none =>
    rw [getLast?_eq_none_iff] at hlast
    subst hlast
    have hm : 0 = m := h
    simp [← hm]
  | some c => simp [h.stop_getLast hlast]

theorem tiles_mergeFrom {n : Int} {ms : List Nat}
    (h : Forall₂ (fun (m : Nat) cs => Tiles 0 m cs) ms css) :
    Tiles n (n + ms.sum) (mergeFrom n css) := by
  induction h generalizing n with
  | nil => simp [mergeFrom, Tiles]
  | @cons m cs ms css hcs _ ih =>
    have hhead : Tiles n (n + m) (cs.map (shift n)) := by
      simpa [Int.add_comm] using hcs.map_shift n
    have hsum : n + (((m :: ms).sum : Nat) : Int) = n + m + (ms.sum : Nat) := by
      simp [Int.add_assoc]
    rw [mergeFrom_cons hcs, hsum]
    exact hhead.append ih

theorem exactSpeed_eq_ok {x : Number} {q : Rat} : exactSpeed x = .ok q ↔ x.toRat? = some q := by
  rw [exactSpeed]
  cases x.toRat? with
  | some r => simp
  | none => cases x.trunc <;> simp

theorem duration_eq_ok {n : Int} {x : Number} {d : Rat} :
    duration n x = .ok d ↔ ∃ q, x.toRat? = some q ∧ q ≠ 0 ∧ n / q = d := by
  simp only [duration, bind_eq_ok, exactSpeed_eq_ok]
  constructor
  · rintro ⟨q, hq, h⟩
    split at h
    · cases h
    · next hne => exact ⟨q, hq, hne, pure_eq_ok.1 h⟩
  · rintro ⟨q, hq, hne, rfl⟩
    exact ⟨q, hq, by simp [hne]⟩

/-- How long a tick lasts: the inverse of its speed, and nothing if it is cut. -/
def tickTime (s : Number) : Option Rat :=
  if s.eqv 99999 then some 0
  else
    match s.toRat? with
    | some q => if q = 0 then none else some (1 / q)
    | none => none

def playTime : List Number → Option Rat
  | [] => some 0
  | s :: ss => do return (← tickTime s) + (← playTime ss)

theorem playTime_append (ss ts : List Number) :
    playTime (ss ++ ts) = (playTime ss).bind fun a => (playTime ts).map (a + ·) := by
  induction ss with
  | nil => cases h : playTime ts <;> simp [playTime, h]
  | cons s ss ih =>
    simp only [cons_append, playTime, ih]
    cases tickTime s with
    | none => rfl
    | some a =>
      cases playTime ss with
      | none => rfl
      | some b =>
        cases playTime ts with
        | none => rfl
        | some c => simp [add_assoc]

theorem playTime_replicate (s : Number) (hn : 0 < n) :
    playTime (replicate n s) = (tickTime s).map fun t => (n : Rat) * t := by
  -- No tick at all lasts 0 even at a speed that no tick can have, so the induction begins at one.
  induction n with
  | zero => exact absurd hn (Nat.lt_irrefl 0)
  | succ n ih =>
    cases n with
    | zero => cases h : tickTime s <;> simp [playTime, h]
    | succ m =>
      rw [replicate_succ, playTime, ih (Nat.succ_pos m)]
      cases tickTime s with
      | none => rfl
      | some a =>
        simp
        ring

theorem duration_toOption {s : Number} (hs : ¬ s.eqv 99999) (n : Int) :
    (duration n s).toOption = (tickTime s).map fun t => (n : Rat) * t := by
  simp only [duration, tickTime, hs, exactSpeed]
  cases s.toRat? with
  | none => cases s.trunc <;> rfl
  | some q =>
    by_cases hq : q = 0
    · simp [hq, bind, Except.bind, Except.toOption]
    · simp [hq, bind, Except.bind, Except.toOption, pure, Except.pure, div_eq_mul_inv]

def lasting (c : Chunk) : Except Fault Rat :=
  if c.isCut then .ok 0 else duration c.length c.speed

theorem total_cons (c : Chunk) (cs : List Chunk) :
    total (c :: cs) = do return (← c.lasting) + (← total cs) := by
  rw [total, lasting]
  split <;> rfl

theorem lasting_toOption (h : c.start < c.stop) :
    c.lasting.toOption = playTime (replicate c.length.toNat c.speed) := by
  have hpos : 0 < c.length := Int.sub_pos_of_lt h
  have hlen : ((c.length.toNat : Int) : Rat) = c.length := by
    rw [Int.toNat_of_nonneg hpos.le]
  rw [playTime_replicate _ (by omega), lasting]
  split
  · next hcut =>
    rw [isCut] at hcut
    simp [tickTime, hcut, Except.toOption]
  · next hcut =>
    rw [duration_toOption hcut, ← hlen]
    rfl

theorem Tiles.total_toOption (h : Tiles lo hi cs) : (total cs).toOption = playTime (speeds cs) := by
  induction cs generalizing lo with
  | nil => rfl
  | cons c cs ih =>
    obtain ⟨-, hlt, htail⟩ := h
    rw [speeds_cons, playTime_append, ← lasting_toOption hlt, ← ih htail, total_cons]
    cases c.lasting with
    | error e => rfl
    | ok d => cases total cs <;> rfl

structure Track where
  cells : List Int
  speedOf : Int → Except Fault Number

def Track.chunks (t : Track) : Except Fault (List Chunk) := ofRuns t.speedOf t.cells

structure Track.Complete (t : Track) : Prop where
  two : 2 ≤ t.cells.length
  keyed : ∀ v ∈ t.cells, ∃ s, t.speedOf v = .ok s

theorem runCodes_of_complete (h : ∀ t ∈ ts, t.Complete) :
    ∃ css, ts.mapM Track.chunks = .ok css ∧
      Forall₂ (fun t cs => ∃ vs, RunCode t.speedOf 0 t.cells vs cs) ts css := by
  simp only [mapM_eq_ok]
  induction ts with
  | nil => exact ⟨[], .nil, .nil⟩
  | cons t ts ih =>
    obtain ⟨css, hcss, hcode⟩ := ih fun u hu => h u (mem_cons_of_mem t hu)
    have ht := h t mem_cons_self
    obtain ⟨cs, hcs⟩ := ofRuns_ok ht.two ht.keyed
    exact ⟨cs :: css, .cons hcs hcss, .cons (runCode_ofRuns hcs).2 hcode⟩

theorem speeds_eq_of_runCodes
    (h : Forall₂ (fun t cs => ∃ vs, RunCode t.speedOf 0 t.cells vs cs) ts css) :
    (css.flatMap speeds).map .ok = ts.flatMap fun t => t.cells.map t.speedOf := by
  induction h with
  | nil => rfl
  | cons hcode _ ih =>
    obtain ⟨vs, hvs⟩ := hcode
    simp [hvs.speeds_eq, ih]

/-- Chunks lose nothing, also across inputs: they tile the ticks of all inputs, give every tick the
speed of its value, change only where the value does, and last as long as the ticks. -/
theorem merge_chunks_lossless (ts : List Track) (h : ∀ t ∈ ts, t.Complete) :
    ∃ css, ts.mapM Track.chunks = .ok css ∧
      (ts ≠ [] → merge css ≠ []) ∧
      Tiles 0 ((ts.map fun t => t.cells.length).sum : Nat) (merge css) ∧
      (speeds (merge css)).map .ok = (ts.flatMap fun t => t.cells.map t.speedOf) ∧
      Forall₂ (fun t cs => ∃ vs : List Int, vs.IsChain (· ≠ ·) ∧ vs.length = cs.length ∧
        fill vs cs = t.cells) ts css ∧
      (total (merge css)).toOption = playTime (speeds (merge css)) := by
  obtain ⟨css, hcss, hcode⟩ := runCodes_of_complete h
  have htiles : Tiles 0 ((ts.map fun t => t.cells.length).sum : Nat) (merge css) := by
    have hall : Forall₂ (fun (m : Nat) cs => Tiles 0 m cs)
        (ts.map fun t => t.cells.length) css := by
      rw [forall₂_map_left_iff]
      refine hcode.imp ?_
      rintro t cs ⟨vs, hvs⟩
      simpa using hvs.tiles
    simpa [merge] using tiles_mergeFrom (n := 0) hall
  refine ⟨css, hcss, ?_, htiles, ?_, ?_, htiles.total_toOption⟩
  · intro hne hnil
    obtain ⟨t, rest, rfl⟩ := exists_cons_of_ne_nil hne
    have htwo := (h t mem_cons_self).two
    rw [hnil] at htiles
    simp only [Tiles, map_cons, sum_cons] at htiles
    omega
  · rw [merge, speeds_mergeFrom]
    exact speeds_eq_of_runCodes hcode
  · refine hcode.imp ?_
    rintro t cs ⟨vs, hvs⟩
    exact ⟨vs, hvs.apart, hvs.values.length_eq, hvs.expand⟩

theorem merge_chunks_lossless_two_tracks :
    ∃ css, [(⟨[1, 1, 2], speedAt [(1, 1), (2, 99999)]⟩ : Track),
        ⟨[2, 0], speedAt [(0, 4), (2, 99999)]⟩].mapM Track.chunks = .ok css ∧
      Tiles 0 5 (merge css) ∧
      (speeds (merge css)).map Except.ok = ([.ok 1, .ok 1, .ok 99999, .ok 99999, .ok 4] :
        List (Except Fault Number)) ∧
      (total (merge css)).toOption = playTime (speeds (merge css)) := by
  obtain ⟨css, hcss, -, htiles, hspeeds, -, htotal⟩ := merge_chunks_lossless
    [⟨[1, 1, 2], speedAt [(1, 1), (2, 99999)]⟩, ⟨[2, 0], speedAt [(0, 4), (2, 99999)]⟩] (by
      intro t ht
      simp only [mem_cons, not_mem_nil, or_false] at ht
      rcases ht with rfl | rfl
      · refine ⟨by decide, ?_⟩
        simp only [forall_mem_cons]
        exact ⟨⟨1, rfl⟩, ⟨1, rfl⟩, ⟨99999, rfl⟩, by simp⟩
      · refine ⟨by decide, ?_⟩
        simp only [forall_mem_cons]
        exact ⟨⟨99999, rfl⟩, ⟨4, rfl⟩, by simp⟩)
  exact ⟨css, hcss, htiles, hspeeds, htotal⟩

end Jumpcut.Chunk
