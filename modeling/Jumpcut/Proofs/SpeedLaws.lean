import Jumpcut.Proofs.ChunkLaws
import Jumpcut.Proofs.RangeLaws
import Jumpcut.Timeline.Build

namespace Jumpcut

open Outcome Range Chunk List

namespace SpeedTable

theorem number_keeps (t : SpeedTable) (s : Number) : t <+: (t.number s).2 := by
  rw [number]
  split
  · exact prefix_refl t
  · exact prefix_append t [s]

theorem number_stands (t : SpeedTable) (s : Number) :
    ∃ s', (t.number s).2[(t.number s).1]? = some s' ∧ s'.Same s := by
  rw [number]
  split
  · next i hi =>
    obtain ⟨hlt, heqv, -⟩ := findIdx?_eq_some_iff_getElem.1 hi
    exact ⟨t[i], getElem?_eq_getElem hlt, .inr heqv⟩
  · exact ⟨s, by simp, .refl s⟩

end SpeedTable

/-- The number of each of the `n` ticks stands for the speed wanted there. -/
structure Stands (n : Nat) (cells : List Int) (t : SpeedTable) (want : Nat → Number) : Prop where
  length_eq : cells.length = n
  stands : ∀ k < n, ∃ (i : Nat) (s : Number),
    cells[k]? = some (i : Int) ∧ t[i]? = some s ∧ s.Same (want k)

namespace Stands

variable {n : Nat} {cells cells' : List Int} {t t' : SpeedTable} {want : Nat → Number} {tb : Rat}

section

variable (h : Stands n cells t want)

include h

theorem grow (ht : t <+: t') : Stands n cells t' want where
  length_eq := h.length_eq
  stands := by
    intro k hk
    obtain ⟨i, s, hi, hs, hsame⟩ := h.stands k hk
    obtain ⟨u, rfl⟩ := ht
    have hlt := (List.getElem?_eq_some_iff.1 hs).1
    exact ⟨i, s, hi, by rw [getElem?_append_left hlt, hs], hsame⟩

theorem write {covered : Nat → Bool} {i : Nat} {s v : Number} (hlen : cells'.length = cells.length)
    (hget : ∀ k < n, cells'[k]? = if covered k then some (i : Int) else cells[k]?)
    (hi : t[i]? = some s) (hs : s.Same v) :
    Stands n cells' t fun k => if covered k then v else want k where
  length_eq := hlen.trans h.length_eq
  stands := by
    intro k hk
    rw [hget k hk]
    cases covered k with
    | true => exact ⟨i, s, rfl, hi, hs⟩
    | false => exact h.stands k hk

theorem setAll {ranges : List (List String)} {i : Nat} {s v : Number}
    (hset : setAll tb (i : Int) ranges cells = .ok cells') (hi : t[i]? = some s) (hs : s.Same v) :
    Stands n cells' t fun k => if ranges.any fun r => covers tb n r k then v else want k := by
  refine h.write (length_setAll hset) ?_ hi hs
  intro k hk
  rw [getElem?_setAll hset (by rw [h.length_eq]; exact hk), h.length_eq]

theorem setRange {r : Number × String × String}
    (hset : SpeedPlan.setRange tb (cells, t) r = .ok (cells', t')) :
    Stands n cells' t' fun k => if covers tb n [r.2.1, r.2.2] k then r.1 else want k := by
  simp only [SpeedPlan.setRange, bind_eq_ok, pure_eq_ok, Prod.mk.injEq] at hset
  obtain ⟨zs, hzs, rfl, rfl⟩ := hset
  obtain ⟨s, hi, hs⟩ := t.number_stands r.1
  refine (h.grow (t.number_keeps r.1)).write (length_setOne hzs) ?_ hi hs
  intro k hk
  rw [getElem?_setOne hzs (by rw [h.length_eq]; exact hk), h.length_eq]

end

end Stands

namespace SpeedPlan

def lastRange (tb : Rat) (n : Nat) (ranges : List (Number × String × String)) (k : Nat) :
    Option (Number × String × String) :=
  (ranges.filter fun r => covers tb n [r.2.1, r.2.2] k).getLast?

/-- The speed of a tick: of the last range that covers it; else of sound where something is added
in; else of a cut where something is cut out; else of sound or silence. -/
def layered (p : SpeedPlan) (tb : Rat) (flags : Flags) (k : Nat) : Number :=
  match lastRange tb flags.length p.ranges k with
  | some r => r.1
  | none =>
    if p.addIn.any fun r => covers tb flags.length r k then p.loudSpeed
    else if p.cutOut.any fun r => covers tb flags.length r k then 99999
    else if flags[k]? = some true then p.loudSpeed
    else p.silentSpeed

variable {n : Nat} {tb : Rat} {cells cells' : List Int} {t t' : SpeedTable} {want : Nat → Number}
  {p : SpeedPlan}

theorem lastRange_cons (r : Number × String × String) (rs : List (Number × String × String))
    (k : Nat) :
    lastRange tb n (r :: rs) k = (lastRange tb n rs k).or
      (if covers tb n [r.2.1, r.2.2] k then some r else none) := by
  simp only [lastRange, filter_cons]
  cases covers tb n [r.2.1, r.2.2] k with
  | true =>
    rw [if_pos rfl, getLast?_cons]
    cases (rs.filter fun r => covers tb n [r.2.1, r.2.2] k).getLast? <;> rfl
  | false => simp

theorem stands_ranges {ranges : List (Number × String × String)} (h : Stands n cells t want)
    (hset : ranges.foldlM (setRange tb) (cells, t) = .ok (cells', t')) :
    Stands n cells' t' fun k => ((lastRange tb n ranges k).map Prod.fst).getD (want k) := by
  induction ranges generalizing cells t want with
  | nil =>
    cases hset
    exact h
  | cons r rs ih =>
    rw [foldlM_cons, bind_eq_ok] at hset
    obtain ⟨⟨zs, u⟩, hzs, hset⟩ := hset
    have hrest := ih (h.setRange hzs) hset
    convert hrest using 2 with k
    rw [lastRange_cons]
    cases lastRange tb n rs k with
    | some r' => rfl
    | none => cases covers tb n [r.2.1, r.2.2] k <;> rfl

theorem stands_flags (p : SpeedPlan) (flags : Flags) :
    Stands flags.length (flags.map fun b => if b then 1 else 0) [p.silentSpeed, p.loudSpeed]
      fun k => if flags[k]? = some true then p.loudSpeed else p.silentSpeed where
  length_eq := by simp
  stands := by
    intro k hk
    rw [getElem?_map, getElem?_eq_getElem hk]
    cases flags[k] with
    | true => exact ⟨1, p.loudSpeed, rfl, rfl, .refl _⟩
    | false => exact ⟨0, p.silentSpeed, rfl, rfl, .refl _⟩

def cutStep (p : SpeedPlan) (tb : Rat) (cells : List Int) (t : SpeedTable) :
    Except Fault (List Int × SpeedTable) :=
  if p.cutOut.isEmpty then .ok (cells, t)
  else do return (← setAll tb ((t.number 99999).1 : Int) p.cutOut cells, (t.number 99999).2)

theorem numbers_eq (p : SpeedPlan) (tb : Rat) (flags : Flags) :
    p.numbers tb flags =
      (p.cutStep tb (flags.map fun b => if b then 1 else 0) [p.silentSpeed, p.loudSpeed] >>= fun s =>
        setAll tb (1 : Int) p.addIn s.1 >>= fun cells =>
          p.ranges.foldlM (setRange tb) (cells, s.2)) := by
  rw [numbers, cutStep]
  cases p.cutOut.isEmpty with
  | true => rfl
  | false =>
    simp only [Bool.false_eq_true, if_false]
    cases setAll tb _ p.cutOut _ <;> rfl

theorem stands_cutStep (h : Stands n cells t want)
    (hset : p.cutStep tb cells t = .ok (cells', t')) :
    t <+: t' ∧ Stands n cells' t' fun k =>
      if p.cutOut.any fun r => covers tb n r k then 99999 else want k := by
  rw [cutStep] at hset
  cases hcut : p.cutOut with
  | nil =>
    rw [hcut] at hset
    cases hset
    exact ⟨prefix_refl t, h⟩
  | cons r rs =>
    simp only [hcut, isEmpty_cons, Bool.false_eq_true, if_false, bind_eq_ok, pure_eq_ok,
      Prod.mk.injEq] at hset
    obtain ⟨zs, hzs, rfl, rfl⟩ := hset
    obtain ⟨s, hi, hs⟩ := t.number_stands 99999
    exact ⟨t.number_keeps 99999, (h.grow (t.number_keeps 99999)).setAll hzs hi hs⟩

theorem stands_numbers {flags : Flags} (h : p.numbers tb flags = .ok (cells, t)) :
    Stands flags.length cells t (p.layered tb flags) := by
  simp only [numbers_eq, bind_eq_ok] at h
  obtain ⟨⟨cut, u⟩, hcut, added, hadd, hranges⟩ := h
  obtain ⟨⟨rest, rfl⟩, hstands⟩ := stands_cutStep (p.stands_flags flags) hcut
  have hloud : ([p.silentSpeed, p.loudSpeed] ++ rest)[1]? = some p.loudSpeed := rfl
  have hall := stands_ranges (hstands.setAll hadd hloud (.refl _)) hranges
  convert hall using 2 with k
  rw [layered]
  cases lastRange tb flags.length p.ranges k <;> rfl

theorem chunks_layered {ticks : PlanTicks} {flags : Flags} {cs : List Chunk}
    (h : p.chunks tb ticks flags = .ok cs) :
    ∃ loud, p.shape tb ticks flags = .ok loud ∧ 2 ≤ loud.length ∧
      Tiles 0 loud.length cs ∧
      ∀ k < loud.length, ∃ s, speedOn cs k = some s ∧ s.Same (p.layered tb loud k) := by
  simp only [chunks, bind_eq_ok] at h
  obtain ⟨loud, hloud, ⟨cells, t⟩, hnumbers, hruns⟩ := h
  have hstands := stands_numbers hnumbers
  obtain ⟨htwo, vs, hcode⟩ := runCode_ofRuns hruns
  have htiles := hcode.tiles
  rw [hstands.length_eq, Int.zero_add] at htiles
  rw [hstands.length_eq] at htwo
  refine ⟨loud, hloud, htwo, htiles, ?_⟩
  intro k hk
  obtain ⟨i, s, hi, hs, hsame⟩ := hstands.stands k hk
  refine ⟨s, ?_, hsame⟩
  have hk' := congrArg (·[k]?) hcode.speeds_eq
  simp only [getElem?_map, hi, Option.map_some] at hk'
  obtain ⟨s', hs', heq⟩ := Option.map_eq_some_iff.1 hk'
  rw [SpeedTable.speed, Int.toNat_natCast, hs] at heq
  cases heq
  rw [← hs', ← htiles.speedOn_eq, Int.zero_add]

end SpeedPlan

section Inputs

variable {e : EditSetup} {o : Options} {ticks : PlanTicks} {strict : Bool} {i : Inputs}
  {scope : Script.Scope} {start : Rat} {w w' : Workspace} {laid : List (List Chunk × List Clip)}

theorem layInputs_cons {k : Nat} {ks : List Nat}
    (h : layInputs e o ticks strict i scope start (k :: ks) w = .ok laid w') :
    ∃ src flags scope' w₁ cs clips length rest,
      i.sources.lookup (toString k) = some src ∧
      Setup.evaluate ⟨src, e.extractor, strict, e.tb, e.bar, e.temp, e.console⟩ scope o.edit w =
        .ok (flags, scope') w₁ ∧
      o.plan.chunks e.tb ticks flags = .ok cs ∧
      Clip.ofChunks (toString k) start cs = .ok clips ∧
      total cs = .ok length ∧
      layInputs e o ticks strict i scope' (start + Exact.round length) ks w₁ = .ok rest w' ∧
      laid = (cs, clips) :: rest := by
  rw [layInputs] at h
  cases hsrc : i.sources.lookup (toString k) with
  | none =>
    rw [hsrc] at h
    exact absurd h run_throw_ne_ok
  | some src =>
    simp only [hsrc, run_bind_eq_ok, Console.check_eq_ok, bind_eq_ok, pure_eq_ok,
      run_pure_eq_ok] at h
    obtain ⟨⟨flags, scope'⟩, w₁, heval, out, w₂,
      ⟨⟨cs, hcs, clips, hclips, length, hlength, rfl⟩, hw⟩, rest, w₃, hrest, rfl, rfl⟩ := h
    subst hw
    exact ⟨src, flags, scope', w₁, cs, clips, length, rest, rfl, heval, hcs, hclips, hlength, hrest,
      rfl⟩

/-- An edit of one input that ends well gives each of its ticks the layered speed. -/
theorem layInputs_layered {k : Nat}
    (h : layInputs e o ticks strict i scope start [k] w = .ok laid w') :
    ∃ src flags scope' w₁ loud,
      i.sources.lookup (toString k) = some src ∧
      Setup.evaluate ⟨src, e.extractor, strict, e.tb, e.bar, e.temp, e.console⟩ scope o.edit w =
        .ok (flags, scope') w₁ ∧
      o.plan.shape e.tb ticks flags = .ok loud ∧ 2 ≤ loud.length ∧
      Tiles 0 loud.length (merge (laid.map Prod.fst)) ∧
      ∀ j < loud.length, ∃ s, speedOn (merge (laid.map Prod.fst)) j = some s ∧
        s.Same (o.plan.layered e.tb loud j) := by
  obtain ⟨src, flags, scope', w₁, cs, clips, length, rest, hsrc, heval, hcs, -, -, hrest, rfl⟩ :=
    layInputs_cons h
  rw [layInputs, run_pure_eq_ok] at hrest
  obtain ⟨rfl, -⟩ := hrest
  obtain ⟨loud, hloud, htwo, htiles, hspeeds⟩ := SpeedPlan.chunks_layered hcs
  refine ⟨src, flags, scope', w₁, loud, hsrc, heval, hloud, htwo, ?_⟩
  simp only [map_cons, map_nil, merge_singleton]
  exact ⟨htiles, hspeeds⟩

end Inputs

def threeTicks : Options where
  edit := "(boolarr 1 0 0)"
  cutOut := [["start", "end"]]
  addIn := [["start", "end"]]
  speedRanges := [(99999, "start", "end"), (1, "end", "start"), (2, "start", "end")]
  silentSpeed := 99999
  videoSpeed := 1

def quietSetup : EditSetup :=
  let console : Console := ⟨false, true, none⟩
  ⟨⟨⟨"ffmpeg", "", false⟩, 48000, "", console⟩, 30, ⟨.hidden, .ascii, false, none⟩, "", console⟩

def threeTicksRun : Session (List (List Chunk × List Clip)) :=
  layInputs quietSetup threeTicks ⟨0, 0, 0, 0⟩ true
    ⟨[("0", ⟨"a.mp4", "0", .null, .null, .null, [], [], []⟩)], [0]⟩ Script.Scope.initial 0 [0]

def emptyWorkspace : Workspace where
  tree := ⟨[], []⟩
  media := []
  programs := ⟨"", "", "", false, none, none, "", false, "", []⟩
  platform := .linux

theorem layInputs_layered_threeTicks :
    ∃ laid w', threeTicksRun emptyWorkspace = .ok laid w' ∧
      ∃ loud : Flags, 2 ≤ loud.length ∧
        ∀ j < loud.length, ∃ s, speedOn (merge (laid.map Prod.fst)) j = some s ∧
          s.Same (threeTicks.plan.layered 30 loud j) := by
  have hends : (threeTicksRun.run' emptyWorkspace).isSome := by decide +kernel
  obtain ⟨laid, w', hrun⟩ := exists_ok_of_run' hends
  obtain ⟨-, -, -, -, loud, -, -, -, htwo, -, hspeeds⟩ := layInputs_layered hrun
  exact ⟨laid, w', hrun, loud, htwo, hspeeds⟩

end Jumpcut
