import Jumpcut.Proofs.AcceptanceLaws

namespace Jumpcut

open Outcome Number SpeedPlan Chunk Range List

namespace Flags

theorem lasting_zero (v : Bool) (xs : Flags) : Lasting v 0 xs := by
  intro lo hi hrun
  have hne := hrun.nonempty
  rw [counted]
  split <;> omega

@[simp] theorem cook_zero (xs : Flags) : cook 0 0 xs = xs := by
  rw [cook, (lasting_zero true xs).dropShort_eq, (lasting_zero false xs).dropShort_eq]

@[simp] theorem margin_zero (xs : Flags) : margin 0 0 xs = xs := by
  simp [margin, foldl_fixed]

end Flags

namespace Chunk

theorem tickTime_of_eqv_zero {s : Number} (h : s.eqv 0) : tickTime s = none := by
  have hzero : (0 : Number).toRat? = some 0 := rfl
  have key {x : Number} (hx : x.Writable) (hcmp : compare? x 0 = some .eq) :
      x.toRat? = some 0 := toRat?_of_compare? hx hzero (.inl hcmp)
  have hreal {x : Number} (hx : x.toRat? = some 0) : tickTime x = none := by
    have hcut : ¬ x.eqv 99999 := by
      rw [eqv_iff_of_toRat? hx (toRat?_ofNat 99999)]
      norm_num
    simp [tickTime, hcut, hx]
  cases s with
  | int n => exact hreal (key ⟨.int n, rfl⟩ (beq_iff_eq.1 h))
  | frac q => exact hreal (by rw [eqv_iff_of_toRat? rfl hzero] at h; exact congrArg some h)
  | float x => exact hreal (key ⟨.float x, rfl⟩ (beq_iff_eq.1 h))
  | complex a b =>
    have ha : compare? (.float a) 0 = some .eq := by
      simp only [eqv, Bool.and_eq_true] at h
      exact beq_iff_eq.1 h.2
    have hcut : ¬ (complex a b).eqv 99999 := by
      intro hcut
      have hcmp : compare? (.float a) 99999 = some .eq := by
        simp only [eqv, Bool.and_eq_true] at hcut
        exact beq_iff_eq.1 hcut.2
      rw [compare?_of_toRat? (key ⟨.float a, rfl⟩ ha) (toRat?_ofNat 99999)] at hcmp
      norm_num at hcmp
      cases hcmp
    simp [tickTime, hcut, toRat?]

theorem playTime_isSome {ss : List Number} :
    (playTime ss).isSome ↔ ∀ s ∈ ss, (tickTime s).isSome := by
  induction ss with
  | nil => simp [playTime]
  | cons s ss ih =>
    rw [forall_mem_cons, ← ih, playTime]
    cases tickTime s with
    | none => simp
    | some a => cases playTime ss <;> simp

theorem Tiles.length_speeds {lo hi : Int} {cs : List Chunk} (h : Tiles lo hi cs) :
    ((speeds cs).length : Int) = hi - lo := by
  induction cs generalizing lo with
  | nil =>
    have heq : lo = hi := h
    simp [heq]
  | cons c cs ih =>
    obtain ⟨hstart, hlt, htail⟩ := h
    rw [speeds_cons, length_append, length_replicate, Nat.cast_add, ih htail, length]
    omega

theorem Tiles.total_ok_iff {lo hi : Int} {cs : List Chunk} (h : Tiles lo hi cs) :
    (∃ d, total cs = .ok d) ↔ ∀ s ∈ speeds cs, (tickTime s).isSome := by
  rw [← playTime_isSome, ← h.total_toOption]
  cases total cs <;> simp [Except.toOption]

end Chunk

namespace SpeedPlan

structure OnlyMarks (p : SpeedPlan) : Prop where
  cutOut : p.cutOut = []
  addIn : p.addIn = []
  ranges : p.ranges = []

def marks (tb : Rat) (n : Nat) (ranges : List (List String)) (k : Nat) : Bool :=
  ranges.any fun r => covers tb n r k

/-- The speed that is asked for at a tick: silence where it is marked as silent, sound where it is
marked as loud only, and elsewhere what its flag says. -/
def requested (p : SpeedPlan) (tb : Rat) (flags : Flags) (k : Nat) : Number :=
  if marks tb flags.length p.markSilent k then p.silentSpeed
  else if marks tb flags.length p.markLoud k then p.loudSpeed
  else if flags[k]? = some true then p.loudSpeed
  else p.silentSpeed

/-- The flag that a tick has after the marks: the truth of the speed that the mark stands for. -/
def marked (p : SpeedPlan) (tb : Rat) (flags : Flags) (k : Nat) : Bool :=
  if marks tb flags.length p.markSilent k then !p.silentSpeed.eqv 0
  else if marks tb flags.length p.markLoud k then !p.loudSpeed.eqv 0
  else flags[k]?.getD false

variable {p : SpeedPlan} {tb : Rat} {flags loud : Flags} {cs : List Chunk} {k : Nat}

theorem getElem?_shape (h : p.shape tb ⟨0, 0, 0, 0⟩ flags = .ok loud) (hk : k < flags.length) :
    loud[k]? = some (p.marked tb flags k) := by
  simp only [shape, Flags.cook_zero, Flags.margin_zero, bind_eq_ok, pure_eq_ok] at h
  obtain ⟨marked, hmarked, both, hboth, rfl⟩ := h
  have hlen := length_setAll hmarked
  rw [getElem?_setAll hboth (by omega), getElem?_setAll hmarked hk, hlen,
    getElem?_eq_getElem hk, SpeedPlan.marked, marks, marks, getElem?_eq_getElem hk]
  split
  · rfl
  · split <;> rfl

theorem OnlyMarks.numbers_eq (hp : p.OnlyMarks) (tb : Rat) (flags : Flags) :
    p.numbers tb flags =
      .ok (flags.map fun b => if b then 1 else 0, [p.silentSpeed, p.loudSpeed]) := by
  simp only [SpeedPlan.numbers_eq, cutStep, hp.cutOut, hp.addIn, hp.ranges]
  rfl

theorem OnlyMarks.speedOn_chunks (hp : p.OnlyMarks)
    (h : p.chunks tb ⟨0, 0, 0, 0⟩ flags = .ok cs) (hk : k < flags.length) :
    speedOn cs k = some (if p.marked tb flags k then p.loudSpeed else p.silentSpeed) := by
  rw [chunks, bind_eq_ok] at h
  obtain ⟨loud, hloud, h⟩ := h
  rw [hp.numbers_eq, ok_bind] at h
  obtain ⟨-, vs, hcode⟩ := runCode_ofRuns h
  have hvalue (b : Bool) : SpeedTable.speed [p.silentSpeed, p.loudSpeed] (if b then 1 else 0) =
      .ok (if b then p.loudSpeed else p.silentSpeed) := by cases b <;> rfl
  have hspeed := congrArg (·[k]?) hcode.speeds_eq
  simp only [getElem?_map, getElem?_shape hloud hk, Option.map_some, hvalue] at hspeed
  obtain ⟨s, hs, heq⟩ := Option.map_eq_some_iff.1 hspeed
  cases heq
  rw [← hs, ← hcode.tiles.speedOn_eq, Int.zero_add]

theorem requested_iff (hne : ¬ p.silentSpeed.Same p.loudSpeed)
    (htime : (tickTime (p.requested tb flags k)).isSome) :
    (if p.marked tb flags k then p.loudSpeed else p.silentSpeed) = p.requested tb flags k ↔
      ¬ marks tb flags.length p.markSilent k := by
  have hrun {s : Number} (hs : (tickTime s).isSome) : s.eqv 0 = false := by
    by_contra hzero
    rw [tickTime_of_eqv_zero (by simpa using hzero)] at hs
    cases hs
  rw [requested] at htime ⊢
  rw [marked]
  cases hsilent : marks tb flags.length p.markSilent k with
  | true =>
    simp only [hsilent, if_true] at htime ⊢
    simp only [hrun htime, Bool.not_false, if_true, not_true, iff_false]
    exact fun heq => hne (.inl heq.symm)
  | false =>
    simp only [hsilent, Bool.false_eq_true, if_false, not_false_eq_true, iff_true] at htime ⊢
    cases hloud : marks tb flags.length p.markLoud k with
    | true =>
      simp only [hloud, if_true] at htime ⊢
      simp [hrun htime]
    | false => cases flags[k]? <;> simp

end SpeedPlan

section Inputs

variable {e : EditSetup} {o : Options} {strict : Bool} {i : Inputs} {scope scope' : Script.Scope}
  {start : Rat} {w w₁ : Workspace} {k : Nat} {src : Source} {flags : Flags}

/-- An edit of one input whose only settings are marks gives every tick the speed asked for if and
only if all marks can be read, the speeds asked for can be run at, and no tick is marked as
silent. -/
theorem layInputs_requested_iff (hp : o.plan.OnlyMarks)
    (hne : ¬ o.silentSpeed.Same o.videoSpeed)
    (heval : (e.ofSource src strict).evaluate scope o.edit w = .ok (flags, scope') w₁)
    (hsrc : i.sources.lookup (toString k) = some src) (htwo : 2 ≤ flags.length) :
    (∃ laid w', layInputs e o ⟨0, 0, 0, 0⟩ strict i scope start [k] w = .ok laid w' ∧
        ∀ j < flags.length, speedOn (merge (laid.map Prod.fst)) j =
          some (o.plan.requested e.tb flags j)) ↔
      (∀ r ∈ o.markLoud ++ o.markSilent, Readable e.tb flags.length r) ∧
      (∀ j < flags.length, (tickTime (o.plan.requested e.tb flags j)).isSome) ∧
      ∀ j < flags.length, ¬ SpeedPlan.marks e.tb flags.length o.markSilent j := by
  refine (layInputs_single_iff (P := fun cs => ∀ j < flags.length, speedOn cs j =
    some (o.plan.requested e.tb flags j)) heval hsrc).trans ?_
  constructor
  · rintro ⟨cs, hcs, htotal, hall⟩
    obtain ⟨loud, hloud, -, htiles, -⟩ := chunks_layered hcs
    have htime : ∀ j < flags.length, (tickTime (o.plan.requested e.tb flags j)).isSome := by
      intro j hj
      have hj' := htiles.speedOn_eq j
      rw [Int.zero_add, hall j hj] at hj'
      exact htiles.total_ok_iff.1 htotal _ (mem_of_getElem? hj'.symm)
    refine ⟨?_, htime, ?_⟩
    · exact fun r hr => chunks_readable hcs r (mem_append_left _ hr)
    · intro j hj
      have hj' := (hp.speedOn_chunks hcs hj).symm.trans (hall j hj)
      exact (requested_iff hne (htime j hj)).1 (Option.some.inj hj')
  · rintro ⟨hread, htime, hsilent⟩
    have hlaid : o.plan.laidRanges = [] := by
      simp [laidRanges, hp.cutOut, hp.addIn, hp.ranges]
    have hread' : ∀ r ∈ o.plan.allRanges, Readable e.tb flags.length r := by
      rw [allRanges, hlaid, append_nil]
      exact hread
    obtain ⟨cs, hcs⟩ := chunks_ok ⟨0, 0, 0, 0⟩ htwo hread'
    have hall : ∀ j < flags.length,
        speedOn cs j = some (o.plan.requested e.tb flags j) := by
      intro j hj
      rw [hp.speedOn_chunks hcs hj,
        (requested_iff hne (htime j hj)).2 (hsilent j hj)]
    obtain ⟨loud, hloud, -, htiles, -⟩ := chunks_layered hcs
    refine ⟨cs, hcs, htiles.total_ok_iff.2 ?_, hall⟩
    intro s hs
    obtain ⟨j, hj, rfl⟩ := mem_iff_getElem.1 hs
    have hlen := htiles.length_speeds
    rw [length_shape hloud] at hlen
    have hj' : j < flags.length := by omega
    have hspeed := htiles.speedOn_eq j
    rw [Int.zero_add, hall j hj', getElem?_eq_getElem hj] at hspeed
    rw [← Option.some.inj hspeed]
    exact htime j hj'

end Inputs

def markedTicks (silent : List (List String)) : Options where
  edit := "(boolarr 1 0 0)"
  markLoud := [["1", "2"]]
  markSilent := silent

theorem layInputs_requested_iff_empty_mark :
    ∃ laid w', layMuted (markedTicks [["2", "2"]]) emptyWorkspace = .ok laid w' ∧
      ∀ j : Nat, j < 3 → speedOn (merge (laid.map Prod.fst)) j =
        some ((markedTicks [["2", "2"]]).plan.requested 30 [true, false, false] j) := by
  obtain ⟨scope, w, heval⟩ := evaluate_rangedTicks 1
  have hne : ¬ Number.Same (markedTicks [["2", "2"]]).silentSpeed
      (markedTicks [["2", "2"]]).videoSpeed := by
    rintro (heq | heqv)
    · exact absurd (congrArg toRat? heq) (by decide +kernel)
    · exact absurd heqv (by decide +kernel)
  refine (layInputs_requested_iff ⟨rfl, rfl, rfl⟩ hne heval rfl (by decide)).2 ⟨?_, ?_, ?_⟩
  · simp only [markedTicks, cons_append, nil_append, forall_mem_cons]
    exact ⟨⟨(1, 2), rfl⟩, ⟨(2, 2), rfl⟩, by simp⟩
  · decide +kernel
  · decide +kernel

theorem layMuted_mark_silent :
    ((layMuted (markedTicks [["0", "1"]])).run' emptyWorkspace).map (fun laid =>
        (merge (laid.map Prod.fst)).map fun c => (c.start, c.stop, c.speed.toRat?)) =
      some [(0, 2, some 1), (2, 3, some 99999)] ∧
    ((markedTicks [["0", "1"]]).plan.requested 30 [true, false, false] 0).toRat? = some 99999 := by
  decide +kernel

end Jumpcut
