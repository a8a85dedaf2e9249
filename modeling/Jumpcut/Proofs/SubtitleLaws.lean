import Jumpcut.Subtitle
import Jumpcut.Proofs.ArithmeticLaws
import Jumpcut.Proofs.ClipLaws

/-!
What becomes of cues when chunks get their speeds. A chunk moves a cue in one of four ways
(`Cue.Moves`), and every cue is moved by all chunks, the last one first (`Cue.Run`). If nothing but
cuts is made, the ticks of a cue move to where the cuts leave them; at other speeds a cue keeps its
order, but one that begins inside a chunk can be moved before the first tick.
-/
namespace Jumpcut

open Exact Outcome Chunk Number Cue

namespace Chunk

def Quickens (c : Chunk) : Prop := ∃ q, c.speed.toRat? = some q ∧ 1 ≤ q ∧ q ≤ 99999

variable {c : Chunk} {cs : List Chunk}

theorem Plain.quickens (h : c.Plain) : c.Quickens := by
  rcases h with h | h
  · exact ⟨1, h, le_rfl, by norm_num⟩
  · exact ⟨99999, h, by norm_num, le_rfl⟩

def Joined (lo : Int) : List Chunk → Prop
  | [] => True
  | c :: cs => c.start = lo ∧ c.start ≤ c.stop ∧ Joined c.stop cs

theorem Tiles.joined {lo hi : Int} (h : Tiles lo hi cs) : Joined lo cs := by
  induction cs generalizing lo with
  | nil => trivial
  | cons c cs ih => exact ⟨h.1, h.2.1.le, ih h.2.2⟩

theorem Joined.le_start {lo : Int} (h : Joined lo cs) (hc : c ∈ cs) :
    lo ≤ c.start ∧ c.start ≤ c.stop := by
  induction cs generalizing lo with
  | nil => cases hc
  | cons d ds ih =>
    obtain ⟨hstart, hle, htail⟩ := h
    rcases List.mem_cons.1 hc with rfl | hc
    · exact ⟨hstart.ge, hle⟩
    · have := ih htail hc
      omega

/-- Of `n` ticks of the chunk its speed takes away `d`. -/
structure Takes (c : Chunk) (n d : Int) : Prop where
  shrink_eq : shrink c.speed n = .ok d
  nonneg : 0 ≤ d
  le : d ≤ n
  none_at_one : c.speed.toRat? = some 1 → d = 0

theorem Takes.all_of_cut {n d : Int} (h : c.Takes n d) (hcut : c.isCut) : d = n := by
  have heq := h.shrink_eq
  rw [shrink, if_pos (by exact hcut)] at heq
  exact (Except.ok.inj heq).symm

theorem Quickens.takes (h : c.Quickens) {n : Int} (hn : 0 ≤ n) (hn' : n ≤ largest) :
    ∃ d, c.Takes n d := by
  obtain ⟨q, hq, hlo, hhi⟩ := h
  by_cases hcut : c.isCut
  · refine ⟨n, by rw [shrink, if_pos (by exact hcut)], hn, le_rfl, fun hone => ?_⟩
    have := (isCut_iff hone).1 hcut
    norm_num at this
  · obtain ⟨y, f, hy, hf, hf0, hf1, hzero⟩ := share_ok hq hlo hhi
    obtain ⟨d, hd, hd0, hdn, hnone⟩ := mul_trunc_ok hn hn' hf hf0 hf1
    refine ⟨d, ?_, hd0, hdn, fun hone => ?_⟩
    · rw [shrink, if_neg (by exact hcut), ← bind_assoc, hy, ok_bind, hd]
    · rw [hq] at hone
      exact hnone (hzero (Option.some.inj hone))

theorem Quickens.checkSpeed_ok (h : c.Quickens) : checkSpeed c = .ok () := by
  obtain ⟨q, hq, hlo, hhi⟩ := h
  obtain ⟨y, f, hy, -⟩ := share_ok hq hlo hhi
  rw [checkSpeed]
  split
  · rw [← bind_assoc, hy]
    rfl
  · rfl

end Chunk

namespace Cue

inductive Moves (c : Chunk) (cue : Cue) : Cue → Prop
  | inside {d : Int} : c.start < cue.start → cue.start < c.stop →
      c.Takes (min c.stop cue.stop - cue.start) d →
      Moves c cue { cue with start := cue.start - d, stop := cue.stop - d - d }
  | across {d : Int} : cue.start ≤ c.start → cue.start < c.stop → c.start ≤ cue.stop →
      c.Takes (min c.stop cue.stop - c.start) d →
      Moves c cue { cue with stop := cue.stop - d }
  | behind {d : Int} : c.stop ≤ cue.start → c.Takes c.length d →
      Moves c cue { cue with start := cue.start - d, stop := cue.stop - d }
  | ahead : cue.stop < c.start → Moves c cue cue

/-- The cue does not end before it begins, and ends within the range of what can be computed. -/
structure Sound (cue : Cue) : Prop where
  start_le : cue.start ≤ cue.stop
  stop_le : cue.stop ≤ largest

variable {c : Chunk} {cue : Cue} {cs chunks : List Chunk} {cues : List Cue}

theorem retime_moves (hc : c.Quickens) (h₀ : 0 ≤ c.start) (hle : c.start ≤ c.stop)
    (hcue : cue.Sound) : ∃ cue', retime c cue = .ok cue' ∧ Moves c cue cue' := by
  obtain ⟨hord, hmax⟩ := hcue
  by_cases hmeet : c.start ≤ cue.stop ∧ cue.start < c.stop
  · rcases lt_or_ge c.start cue.start with hin | hin
    · have heq : max c.start cue.start = cue.start := by omega
      obtain ⟨d, hd⟩ := hc.takes (n := min c.stop cue.stop - cue.start) (by omega) (by omega)
      refine ⟨_, ?_, .inside hin hmeet.2 hd⟩
      rw [retime, if_pos hmeet, heq, hd.shrink_eq, ok_bind, if_pos hin]
      rfl
    · have heq : max c.start cue.start = c.start := by omega
      obtain ⟨d, hd⟩ := hc.takes (n := min c.stop cue.stop - c.start) (by omega) (by omega)
      refine ⟨_, ?_, .across hin hmeet.2 hmeet.1 hd⟩
      rw [retime, if_pos hmeet, heq, hd.shrink_eq, ok_bind, if_neg (by omega)]
      rfl
  · by_cases hbehind : c.start ≤ cue.start
    · obtain ⟨d, hd⟩ := hc.takes (n := c.length) (by rw [length]; omega)
        (by rw [length]; omega)
      refine ⟨_, ?_, .behind (by omega) hd⟩
      rw [retime, if_neg hmeet, if_pos hbehind, ← length, hd.shrink_eq, ok_bind]
      rfl
    · refine ⟨_, ?_, .ahead (by omega)⟩
      rw [retime, if_neg hmeet, if_neg hbehind]
      rfl

theorem Moves.sound {cue' : Cue} (h : Moves c cue cue') (hcue : cue.Sound) : cue'.Sound := by
  obtain ⟨hord, hmax⟩ := hcue
  cases h with
  | inside hlo hhi hd =>
    have := hd.nonneg
    have := hd.le
    exact ⟨by dsimp only; omega, by dsimp only; omega⟩
  | across hlo hhi hreach hd =>
    have := hd.nonneg
    have := hd.le
    exact ⟨by dsimp only; omega, by dsimp only; omega⟩
  | behind hlo hd =>
    have := hd.nonneg
    exact ⟨by dsimp only; omega, by dsimp only; omega⟩
  | ahead hlt => exact ⟨hord, hmax⟩

def Run : List Chunk → Cue → Cue → Prop
  | [], cue, cue' => cue = cue'
  | c :: cs, cue, cue' => ∃ mid, Run cs cue mid ∧ Moves c mid cue'

theorem Run.sound {cue' : Cue} (h : Run cs cue cue') (hcue : cue.Sound) : cue'.Sound := by
  induction cs generalizing cue' with
  | nil =>
    cases h
    exact hcue
  | cons c cs ih =>
    obtain ⟨mid, hrun, hmove⟩ := h
    exact hmove.sound (ih hrun)

theorem retimeEach_ok {R S : Cue → Cue → Prop} {mids : List Cue} (hmids : List.Forall₂ R cues mids)
    (hstep : ∀ cue mid, R cue mid → ∃ cue', retime c mid = .ok cue' ∧ S cue cue') :
    ∃ moved, retimeEach c mids = (moved, none) ∧ List.Forall₂ S cues moved := by
  induction hmids with
  | nil => exact ⟨[], rfl, .nil⟩
  | cons hR _ ih =>
    obtain ⟨cue', hcue, hS⟩ := hstep _ _ hR
    obtain ⟨moved, hmoved, hSs⟩ := ih
    exact ⟨cue' :: moved, by simp only [retimeEach, hcue, hmoved], .cons hS hSs⟩

theorem retimeAll_append {ds : List Chunk} {cues' : List Cue}
    (h : retimeAll cs cues = (cues', none)) : retimeAll (cs ++ ds) cues = retimeAll ds cues' := by
  induction cs generalizing cues with
  | nil =>
    cases h
    rfl
  | cons c cs ih =>
    rw [retimeAll] at h
    rw [List.cons_append, retimeAll]
    split at h
    · cases h
    · split at h
      · next heach => exact ih h
      · cases h

theorem retimeAll_runs {lo : Int} (h₀ : 0 ≤ lo) (hjoin : Joined lo chunks)
    (hspeed : ∀ c ∈ chunks, c.Quickens) (hcues : ∀ cue ∈ cues, cue.Sound) :
    ∃ moved, retimeAll chunks.reverse cues = (moved, none) ∧
      List.Forall₂ (fun cue cue' => cue ∈ cues ∧ Run chunks cue cue') cues moved := by
  induction chunks generalizing lo with
  | nil => exact ⟨cues, rfl, List.forall₂_same.2 fun cue hcue => ⟨hcue, rfl⟩⟩
  | cons c cs ih =>
    obtain ⟨hstart, hle, hjoin⟩ := hjoin
    obtain ⟨mids, hmids, hruns⟩ := ih (by omega) hjoin fun d hd => hspeed d (.tail _ hd)
    have hc : c.Quickens := hspeed c (.head _)
    obtain ⟨moved, hmoved, hall⟩ : ∃ moved, retimeEach c mids = (moved, none) ∧
        List.Forall₂ (fun cue cue' => cue ∈ cues ∧ Run (c :: cs) cue cue') cues moved := by
      apply retimeEach_ok hruns
      rintro cue mid ⟨hcue, hrun⟩
      obtain ⟨cue', hcue', hmove⟩ := retime_moves hc (by omega) hle (hrun.sound (hcues cue hcue))
      exact ⟨cue', hcue', hcue, mid, hrun, hmove⟩
    refine ⟨moved, ?_, hall⟩
    rw [List.reverse_cons, retimeAll_append hmids, retimeAll, hc.checkSpeed_ok]
    simp only [hmoved]
    rfl

theorem edit_runs (hne : chunks ≠ []) (hjoin : Joined 0 chunks)
    (hspeed : ∀ c ∈ chunks, c.Quickens) (hcues : ∀ cue ∈ cues, cue.Sound) :
    ∃ moved, edit chunks cues = (moved.filter isShown, none) ∧
      List.Forall₂ (fun cue cue' => cue ∈ cues ∧ Run chunks cue cue') cues moved := by
  obtain ⟨moved, hmoved, hruns⟩ := retimeAll_runs le_rfl hjoin hspeed hcues
  refine ⟨moved, ?_, hruns⟩
  rw [edit, if_neg (by simpa using hne), hmoved]

end Cue

namespace Chunk

def cutTicks (cs : List Chunk) (t : Int) : Nat :=
  (List.range t.toNat).countP fun k : Nat => cs.any fun c => c.isCut && decide (c.Holds k)

def tickAfter (cs : List Chunk) (t : Int) : Int := t - cutTicks cs t

def below (c : Chunk) (t : Int) : Int := min t c.stop - min t c.start

def cutBelow : List Chunk → Int → Int
  | [], _ => 0
  | c :: cs, t => (if c.isCut then c.below t else 0) + cutBelow cs t

variable {lo : Int} {cs : List Chunk}

theorem not_holds_of_lt (h : Joined lo cs) {k : Int} (hk : k < lo) :
    (cs.any fun c => c.isCut && decide (c.Holds k)) = false := by
  rw [List.any_eq_false]
  intro c hc
  have hstart := (h.le_start hc).1
  have hout : ¬ c.Holds k := fun hin => by
    have := hin.1
    omega
  simp [hout]

theorem cutBelow_succ (h : Joined lo cs) (k : Int) :
    cutBelow cs (k + 1) =
      cutBelow cs k + if cs.any fun c => c.isCut && decide (c.Holds k) then 1 else 0 := by
  induction cs generalizing lo with
  | nil => rfl
  | cons c cs ih =>
    obtain ⟨-, hle, hjoin⟩ := h
    rw [cutBelow, cutBelow, ih hjoin, List.any_cons]
    by_cases hin : c.Holds k
    · rw [not_holds_of_lt hjoin hin.2]
      have hgrow : c.below (k + 1) = c.below k + 1 := by
        obtain ⟨hlo, hhi⟩ := hin
        rw [below, below]
        omega
      by_cases hcut : c.isCut
      · simp [hcut, hin, hgrow]
        omega
      · simp [hcut]
    · have hstay : c.below (k + 1) = c.below k := by
        simp only [Holds, not_and, not_lt] at hin
        rw [below, below]
        omega
      simp [hin, hstay]
      omega

theorem cutBelow_of_le (h : Joined lo cs) {t : Int} (ht : t ≤ lo) : cutBelow cs t = 0 := by
  induction cs generalizing lo with
  | nil => rfl
  | cons c cs ih =>
    obtain ⟨hstart, hle, hjoin⟩ := h
    have hnone : c.below t = 0 := by
      rw [below]
      omega
    rw [cutBelow, ih hjoin (by omega), hnone]
    simp

theorem cutTicks_eq (h : Joined 0 cs) (t : Int) : (cutTicks cs t : Int) = cutBelow cs t := by
  rcases le_or_gt t 0 with ht | ht
  · rw [cutBelow_of_le h ht, cutTicks, Int.toNat_of_nonpos ht]
    rfl
  · obtain ⟨n, rfl⟩ := Int.eq_ofNat_of_zero_le ht.le
    clear ht
    rw [cutTicks, Int.toNat_natCast]
    induction n with
    | zero => rw [Nat.cast_zero, cutBelow_of_le h le_rfl]; rfl
    | succ n ih =>
      rw [List.range_succ, List.countP_append, List.countP_singleton, Nat.cast_add, ih,
        Nat.cast_succ, cutBelow_succ h]
      split <;> rfl

theorem cutBelow_cons_kept {c : Chunk} (hcut : ¬ c.isCut) (cs : List Chunk) :
    cutBelow (c :: cs) = cutBelow cs := by
  funext t
  simp [cutBelow, hcut]

theorem cutBelow_bounds (h : Joined lo cs) {t : Int} (ht : lo ≤ t) :
    0 ≤ cutBelow cs t ∧ cutBelow cs t ≤ t - lo := by
  induction cs generalizing lo with
  | nil => exact ⟨le_rfl, sub_nonneg.2 ht⟩
  | cons c cs ih =>
    obtain ⟨hstart, hle, hjoin⟩ := h
    have hpart : 0 ≤ c.below t ∧ c.below t = min t c.stop - lo := by
      rw [below]
      omega
    have hrest : 0 ≤ cutBelow cs t ∧ cutBelow cs t ≤ t - min t c.stop := by
      rcases le_or_gt c.stop t with hstop | hstop
      · have := ih hjoin hstop
        omega
      · rw [cutBelow_of_le hjoin hstop.le]
        omega
    rw [cutBelow]
    split <;> omega

end Chunk

namespace Cue

def mapTicks (f : Int → Int) (cue : Cue) : Cue :=
  { cue with start := f cue.start, stop := f cue.stop }

/-- A cue is moved as its ticks are, or it was in a chunk that is cut and has no length any more. -/
def Follows (lo : Int) (cs : List Chunk) (cue cue' : Cue) : Prop :=
  cue' = cue.mapTicks (fun t => t - cutBelow cs t) ∨
    (cue'.start = cue'.stop ∧ lo ≤ cue.start ∧
      cue.start - cutBelow cs cue.start = cue.stop - cutBelow cs cue.stop)

variable {c : Chunk} {cue cue' : Cue} {cs chunks : List Chunk} {lo : Int}

theorem Moves.eq_of_one (hone : c.speed.toRat? = some 1) (h : Moves c cue cue') : cue' = cue := by
  cases h with
  | inside _ _ hd | across _ _ _ hd | behind _ hd => simp [hd.none_at_one hone]
  | ahead => rfl

theorem Moves.flat (h : Moves c cue cue') (hflat : cue.start = cue.stop) :
    cue'.start = cue'.stop := by
  cases h with
  | inside hlo hhi hd | across hlo hhi hreach hd =>
    have := hd.nonneg
    have := hd.le
    dsimp only
    omega
  | behind hlo hd =>
    dsimp only
    omega
  | ahead => exact hflat

theorem cutBelow_cases (hjoin : Joined c.stop cs) (t : Int) :
    (t ≤ c.stop ∧ cutBelow cs t = 0) ∨
      (c.stop < t ∧ 0 ≤ cutBelow cs t ∧ cutBelow cs t ≤ t - c.stop) := by
  rcases le_or_gt t c.stop with ht | ht
  · exact .inl ⟨ht, cutBelow_of_le hjoin ht⟩
  · exact .inr ⟨ht, cutBelow_bounds hjoin ht.le⟩

theorem Moves.follows_of_cut (hjoin : Joined lo (c :: cs)) (hcut : c.isCut)
    (hord : cue.start ≤ cue.stop)
    (hinside : c.start < cue.start → cue.start < c.stop → cue.stop ≤ c.stop)
    (hmove : Moves c (cue.mapTicks fun t => t - cutBelow cs t) cue') :
    Follows lo (c :: cs) cue cue' := by
  obtain ⟨hstart, hle, hjoin⟩ := hjoin
  have hbegin := cutBelow_cases hjoin cue.start
  have hend := cutBelow_cases hjoin cue.stop
  simp only [Follows, cutBelow, hcut, if_true, below, mapTicks]
  rw [mapTicks] at hmove
  cases hmove with
  | inside hlo hhi hd =>
    obtain rfl := hd.all_of_cut hcut
    dsimp only at *
    right
    omega
  | across hlo hhi hreach hd =>
    obtain rfl := hd.all_of_cut hcut
    left
    dsimp only at *
    congr 1 <;> omega
  | behind hlo hd =>
    obtain rfl := hd.all_of_cut hcut
    left
    rw [length]
    dsimp only at *
    congr 1 <;> omega
  | ahead hlt =>
    left
    dsimp only at *
    congr 1 <;> omega

theorem Run.follows (hjoin : Joined lo chunks) (hplain : ∀ c ∈ chunks, c.Plain)
    (hord : cue.start ≤ cue.stop)
    (hinside : ∀ c ∈ chunks, c.isCut → c.start < cue.start → cue.start < c.stop →
      cue.stop ≤ c.stop) (hrun : Run chunks cue cue') : Follows lo chunks cue cue' := by
  induction chunks generalizing lo cue' with
  | nil =>
    cases hrun
    left
    simp [mapTicks, cutBelow]
  | cons c cs ih =>
    obtain ⟨mid, hrun, hmove⟩ := hrun
    have hrest : Follows c.stop cs cue mid :=
      ih hjoin.2.2 (fun d hd => hplain d (.tail _ hd)) (fun d hd => hinside d (.tail _ hd)) hrun
    obtain ⟨hstart, hle, hjoin'⟩ := id hjoin
    by_cases hcut : c.isCut
    · rcases hrest with rfl | ⟨hflat, hlo, heq⟩
      · exact hmove.follows_of_cut hjoin hcut hord (hinside c (.head _) hcut)
      · refine .inr ⟨hmove.flat hflat, by omega, ?_⟩
        simp only [cutBelow, hcut, if_true, below]
        omega
    · have hone : c.speed.toRat? = some 1 := by
        rcases hplain c (.head _) with h | h
        · exact h
        · exact absurd ((isCut_iff h).2 rfl) hcut
      rw [hmove.eq_of_one hone, Follows, cutBelow_cons_kept hcut]
      exact hrest.imp_right fun ⟨hflat, hlo, heq⟩ => ⟨hflat, by omega, heq⟩

theorem filter_eq_map_of_forall₂ {R : Cue → Cue → Prop} {p q : Cue → Bool} {f : Cue → Cue}
    {cues moved : List Cue} (h : List.Forall₂ R cues moved)
    (hp : ∀ cue cue', R cue cue' → p cue' = q cue ∧ (q cue → cue' = f cue)) :
    moved.filter p = (cues.filter q).map f := by
  induction h with
  | nil => rfl
  | cons hR _ ih =>
    obtain ⟨hpq, hf⟩ := hp _ _ hR
    rw [List.filter_cons, List.filter_cons, hpq, ih]
    split
    · next hq => rw [List.map_cons, hf hq]
    · rfl

/-- If chunks are only kept or cut, a cue is shown from where its first tick moves to where its last
one does, and it is dropped if nothing lies between. -/
theorem edit_follows_cuts {chunks : List Chunk} (hne : chunks ≠ []) (hjoin : Joined 0 chunks)
    (hplain : ∀ c ∈ chunks, c.Plain) {cues : List Cue}
    (hcues : ∀ cue ∈ cues, cue.Sound)
    (hinside : ∀ cue ∈ cues, ∀ c ∈ chunks, c.isCut → c.start < cue.start → cue.start < c.stop →
      cue.stop ≤ c.stop) :
    edit chunks cues =
      ((cues.filter fun cue =>
          tickAfter chunks cue.start ≠ tickAfter chunks cue.stop).map
        (mapTicks (tickAfter chunks)), none) := by
  obtain ⟨moved, hmoved, hruns⟩ :=
    edit_runs hne hjoin (fun c hc => (hplain c hc).quickens) hcues
  have htick : tickAfter chunks = fun t => t - cutBelow chunks t := by
    funext t
    rw [tickAfter, cutTicks_eq hjoin]
  rw [hmoved, htick]
  congr 1
  apply filter_eq_map_of_forall₂ hruns
  rintro cue cue' ⟨hcue, hrun⟩
  rcases hrun.follows hjoin hplain (hcues cue hcue).start_le (hinside cue hcue) with
    rfl | ⟨hflat, -, heq⟩
  · exact ⟨by rw [Bool.eq_iff_iff]; simp [isShown, mapTicks], fun _ => rfl⟩
  · simp [isShown, hflat, heq]

theorem edit_follows_cuts_three_chunks :
    edit [⟨0, 10, 1⟩, ⟨10, 20, 99999⟩, ⟨20, 30, 1⟩]
        [⟨5, 25, "", "", "a"⟩, ⟨12, 20, "", "", "b"⟩, ⟨20, 30, "", "", "c"⟩] =
      ([⟨5, 15, "", "", "a"⟩, ⟨10, 20, "", "", "c"⟩], none) := by
  refine (edit_follows_cuts (by simp) ?_ ?_ ?_ ?_).trans ?_
  · simp [Chunk.Joined]
  · simp [Plain]
  · have := two_pow_le_largest
    simp only [List.mem_cons, List.not_mem_nil, or_false, forall_eq_or_imp, forall_eq]
    refine ⟨⟨?_, ?_⟩, ⟨?_, ?_⟩, ?_, ?_⟩ <;> dsimp only <;> omega
  · decide
  · decide

theorem Run.frame {lo : Int} {chunks : List Chunk} (hjoin : Joined lo chunks)
    {cue cue' : Cue} (hlo : cue.start ≤ lo) (hrun : Run chunks cue cue') :
    cue'.start = cue.start ∧ min lo cue'.stop = min lo cue.stop := by
  induction chunks generalizing lo cue' with
  | nil =>
    cases hrun
    exact ⟨rfl, rfl⟩
  | cons c cs ih =>
    obtain ⟨hstart, hle, hjoin⟩ := hjoin
    obtain ⟨mid, hrun, hmove⟩ := hrun
    obtain ⟨hfirst, hlast⟩ := ih hjoin (by omega) hrun
    cases hmove with
    | inside hin _ _ => omega
    | across _ _ hreach hd =>
      have := hd.nonneg
      have := hd.le
      exact ⟨hfirst, by dsimp only; omega⟩
    | behind hbehind hd =>
      have hnone := hd.le
      rw [length] at hnone
      have := hd.nonneg
      exact ⟨by dsimp only; omega, by dsimp only; omega⟩
    | ahead => exact ⟨hfirst, by omega⟩

structure Pulled (c : Chunk) (cue : Cue) (d : Int) : Prop where
  after : c.start < cue.start
  before : cue.start < c.stop
  takes : c.Takes (min c.stop cue.stop - cue.start) d

theorem Run.le_start (hjoin : Joined lo chunks) (hlo : lo ≤ cue.start)
    (hroom : ∀ c ∈ chunks, ∀ d, Pulled c cue d → d ≤ cue.start - c.start)
    (hrun : Run chunks cue cue') : lo ≤ cue'.start := by
  induction chunks generalizing lo cue' with
  | nil =>
    cases hrun
    exact hlo
  | cons c cs ih =>
    obtain ⟨hstart, hle, hjoin⟩ := hjoin
    obtain ⟨mid, hrun, hmove⟩ := hrun
    rcases lt_or_ge cue.start c.stop with hin | hout
    · obtain ⟨hfirst, hlast⟩ := hrun.frame hjoin hin.le
      cases hmove with
      | inside hafter hbefore hd =>
        rw [hlast, hfirst] at hd
        have := hroom c (.head _) _ ⟨by omega, hin, hd⟩
        dsimp only
        omega
      | behind hbehind _ => omega
      | across => exact hlo.trans hfirst.ge
      | ahead => exact hlo.trans hfirst.ge
    · have hmid : c.stop ≤ mid.start := ih hjoin hout (fun d hd => hroom d (.tail _ hd)) hrun
      cases hmove with
      | inside _ hbefore _ => omega
      | across _ hbefore _ _ => omega
      | behind _ hd =>
        have hlen := hd.le
        rw [length] at hlen
        dsimp only
        omega
      | ahead => omega

theorem Moves.start_le (h : Moves c cue cue') : cue'.start ≤ cue.start := by
  cases h with
  | inside _ _ hd | behind _ hd =>
    have := hd.nonneg
    dsimp only
    omega
  | across | ahead => exact le_rfl

theorem Run.start_le_sub (hjoin : Joined lo chunks) (hord : cue.start ≤ cue.stop)
    (hrun : Run chunks cue cue') (hc : c ∈ chunks) {d : Int} (hpull : Pulled c cue d) :
    cue'.start ≤ cue.start - d := by
  induction chunks generalizing lo cue' with
  | nil => cases hc
  | cons b cs ih =>
    obtain ⟨hstart, hle, hjoin⟩ := hjoin
    obtain ⟨mid, hrun, hmove⟩ := hrun
    rcases List.mem_cons.1 hc with rfl | hc
    · obtain ⟨hafter, hbefore, htakes⟩ := hpull
      obtain ⟨hfirst, hlast⟩ := hrun.frame hjoin hbefore.le
      cases hmove with
      | inside _ _ hd =>
        rw [hlast, hfirst] at hd
        have := Except.ok.inj (hd.shrink_eq.symm.trans htakes.shrink_eq)
        dsimp only
        omega
      | across hbegin _ _ _ => omega
      | behind hbehind _ => omega
      | ahead hlt => omega
    · exact hmove.start_le.trans (ih hjoin hrun hc)

/-- Cues keep their order at all speeds. A cue that begins inside a chunk does not begin before the
first tick if the chunk takes away no more than what of it lies before the cue; if the chunk takes
away more than all that lies before the cue, it does. -/
theorem edit_ordered {n : Int} {chunks : List Chunk} (hne : chunks ≠ [])
    (htiles : Tiles 0 n chunks) (hspeed : ∀ c ∈ chunks, c.Quickens) {cues : List Cue}
    (hcues : ∀ cue ∈ cues, 0 ≤ cue.start ∧ cue.Sound) :
    ∃ moved, edit chunks cues = (moved.filter isShown, none) ∧
      (∀ cue' ∈ moved.filter isShown, cue'.start < cue'.stop) ∧
      List.Forall₂ (fun cue cue' =>
        ((∀ c ∈ chunks, ∀ d, Pulled c cue d → d ≤ cue.start - c.start) → 0 ≤ cue'.start) ∧
          ∀ c ∈ chunks, ∀ d, Pulled c cue d → cue.start < d → cue'.start < 0) cues moved := by
  obtain ⟨moved, hmoved, hruns⟩ :=
    edit_runs hne htiles.joined hspeed fun cue hcue => (hcues cue hcue).2
  refine ⟨moved, hmoved, ?_, hruns.imp ?_⟩
  · intro cue' hcue'
    obtain ⟨hmem, hshown⟩ := List.mem_filter.1 hcue'
    obtain ⟨cue, -, hcue, hrun⟩ := exists_of_mem_right hruns hmem
    have := (hrun.sound (hcues cue hcue).2).start_le
    simp only [isShown, bne_iff_ne] at hshown
    omega
  · rintro cue cue' ⟨hcue, hrun⟩
    obtain ⟨h₀, hsound⟩ := hcues cue hcue
    refine ⟨fun hroom => hrun.le_start htiles.joined h₀ hroom, fun c hc d hpull hlt => ?_⟩
    have := hrun.start_le_sub htiles.joined hsound.start_le hc hpull
    omega

theorem edit_ordered_four_times :
    (edit [⟨0, 10, 4⟩, ⟨10, 20, 1⟩] [⟨8, 12, "", "", "a"⟩]).1.all
      fun cue' => 0 ≤ cue'.start ∧ cue'.start < cue'.stop := by
  obtain ⟨moved, hedit, hord, hstart⟩ :=
    @edit_ordered 20 [⟨0, 10, 4⟩, ⟨10, 20, 1⟩] (by simp) (by simp [Tiles])
      (by norm_num [Quickens]) [⟨8, 12, "", "", "a"⟩] (by
        have := two_pow_le_largest
        simp only [List.mem_singleton, forall_eq]
        exact ⟨by omega, by dsimp only; omega, by dsimp only; omega⟩)
  rw [hedit, List.all_eq_true]
  intro cue' hcue'
  refine decide_eq_true ⟨?_, hord cue' hcue'⟩
  obtain ⟨cue, hcue, hroom, -⟩ := exists_of_mem_right hstart (List.mem_of_mem_filter hcue')
  obtain rfl := List.mem_singleton.1 hcue
  apply hroom
  rintro c hc d ⟨hafter, hbefore, htakes⟩
  rcases List.mem_cons.1 hc with rfl | hc
  · have hone : shrink 4 2 = .ok 1 := by decide +kernel
    have := Except.ok.inj (htakes.shrink_eq.symm.trans hone)
    dsimp only
    omega
  · obtain rfl := List.mem_singleton.1 hc
    dsimp only at hafter
    omega

theorem edit_negative_start :
    edit [⟨0, 10, 99999⟩, ⟨10, 20, 1⟩] [⟨1, 12, "", "", "a"⟩] =
      ([⟨-8, -6, "", "", "a"⟩], none) := by
  decide +kernel

end Cue

namespace SubtitleFormat

theorem tickOf_le {f : SubtitleFormat} {tb : Rat} {text : String} {n : Int}
    (h : f.tickOf tb text = .ok n) : |n| ≤ largest := by
  rw [tickOf] at h
  split at h
  · cases h
  · simp only [bind_eq_ok] at h
    obtain ⟨hours, -, minutes, -, h⟩ := h
    split at h
    · cases h
    · simp only [bind_eq_ok] at h
      obtain ⟨whole, hwhole, ticks, hticks, hround⟩ := h
      obtain ⟨a, -, hwhole⟩ := bind_eq_ok.1 (hwhole : ((int _).toFloat >>= _) = _)
      cases hwhole
      obtain ⟨b, -, hticks⟩ := bind_eq_ok.1 (hticks : ((float _).toFloat >>= _) = _)
      obtain ⟨c, -, hticks⟩ := bind_eq_ok.1 hticks
      cases hticks
      exact round_float_le hround

end SubtitleFormat

namespace Cue

theorem stop_le_of_ofMatches {f : SubtitleFormat} {tb : Rat} {text : List Char} {ms : List Found}
    {cue : Cue} (h : cue ∈ (ofMatches f tb text ms).1) : cue.stop ≤ largest := by
  induction ms with
  | nil => cases h
  | cons m ms ih =>
    rw [ofMatches] at h
    split at h
    · cases h
    · next c hc =>
      rcases List.mem_cons.1 h with rfl | h
      · simp only [ofMatch, bind_eq_ok, pure_eq_ok] at hc
        obtain ⟨start, -, stop, hstop, rfl⟩ := hc
        exact (abs_le.1 (SubtitleFormat.tickOf_le hstop)).2
      · exact ih h

end Cue

theorem Subtitles.stop_le_of_parse (f : SubtitleFormat) (tb : Rat) (text : String) :
    ∀ cue ∈ (Subtitles.parse f tb text).1.cues, cue.stop ≤ largest := by
  intro cue hcue
  rw [parse] at hcue
  split at hcue
  · cases hcue
  · next m ms _ =>
    have hmem : cue ∈ (ofMatches f tb text.toList (m :: ms)).1 := by
      dsimp only at hcue
      split at hcue
      · next hread => rwa [hread]
      · next hread => rwa [hread]
    exact stop_le_of_ofMatches hmem

end Jumpcut
