import Jumpcut.Proofs.ChunkListLaws
import Jumpcut.Proofs.ClipLaws
import Jumpcut.Proofs.MarginLaws
import Jumpcut.Proofs.SettingLaws
import Jumpcut.Proofs.SpeedLaws

namespace Jumpcut

open Outcome List Range Chunk Setting Script

namespace Number

variable {x y : Number}

theorem toRat?_of_compare? {q : Rat} (hx : x.Writable) (hy : y.toRat? = some q)
    (h : compare? x y = some .eq ∨ compare? y x = some .eq) : x.toRat? = some q := by
  have key {p : Rat} (hp : x.toRat? = some p) : x.toRat? = some q := by
    rw [compare?_of_toRat? hp hy, compare?_of_toRat? hy hp] at h
    have : p = q := by
      rcases lt_trichotomy p q with hlt | heq | hgt
      · simp [hlt, not_lt_of_gt hlt] at h
      · exact heq
      · simp [hgt, not_lt_of_gt hgt] at h
    rw [hp, this]
  cases x with
  | int n => exact key rfl
  | frac r => exact key rfl
  | float f =>
    cases hf : Exact.ofFloat? f with
    | some p => exact key hf
    | none =>
      cases hclass : Exact.classify f with
      | nan => simp [compare?, hclass] at h
      | inf neg =>
        obtain ⟨h₁, h₂⟩ := compare?_inf hclass hy
        rw [h₁, h₂] at h
        cases neg <;> simp at h
      | finite neg m e =>
        rw [Exact.ofFloat?, hclass] at hf
        cases hf
  | complex re im =>
    obtain ⟨j, hj⟩ := hx
    cases hj

theorem compare?_of_eqv (hx : x.Writable) (hy : y.Writable) (h : x.eqv y) :
    compare? x y = some .eq := by
  obtain ⟨j, hj⟩ := hx
  obtain ⟨k, hk⟩ := hy
  cases x with
  | frac _ | complex _ _ => cases hj
  | int _ | float _ =>
    cases y with
    | frac _ | complex _ _ => cases hk
    | int _ | float _ => exact beq_iff_eq.1 h

theorem Same.toRat?_iff (h : x.Same y) (hx : x.Writable) (hy : y.Writable) {q : Rat} :
    x.toRat? = some q ↔ y.toRat? = some q := by
  rcases h with rfl | h
  · exact Iff.rfl
  · have heq := compare?_of_eqv hx hy h
    exact ⟨fun hq => toRat?_of_compare? hy hq (.inr heq),
      fun hq => toRat?_of_compare? hx hq (.inl heq)⟩

end Number

namespace SpeedTable

theorem mem_number {t : SpeedTable} {s x : Number} (h : x ∈ (t.number s).2) : x ∈ t ∨ x = s := by
  rw [number] at h
  split at h
  · exact .inl h
  · exact (mem_append.1 h).imp_right mem_singleton.1

end SpeedTable

namespace SpeedPlan

variable {tb : Rat} {cells cells' : List Int} {t t' : SpeedTable} {p : SpeedPlan}
  {ticks : PlanTicks} {flags : Flags} {r : Number × String × String}
  {ranges : List (Number × String × String)} {P : Number → Prop} {cs : List Chunk}

theorem length_shape {loud : Flags} (h : p.shape tb ticks flags = .ok loud) :
    loud.length = flags.length := by
  simp only [shape, bind_eq_ok, pure_eq_ok] at h
  obtain ⟨marked, hmarked, both, hboth, rfl⟩ := h
  rw [Flags.length_cook, Flags.length_margin, Flags.length_cook, length_setAll hboth,
    length_setAll hmarked]

theorem shape_ok_iff {p : SpeedPlan} {ticks : PlanTicks} {flags : Flags} :
    (∃ loud, p.shape tb ticks flags = .ok loud) ↔
      ∀ r ∈ p.markLoud ++ p.markSilent, Readable tb flags.length r := by
  simp only [shape, bind_eq_ok, pure_eq_ok, forall_mem_append]
  constructor
  · rintro ⟨-, marked, hmarked, both, hboth, rfl⟩
    have hsilent := setAll_ok_iff.1 ⟨both, hboth⟩
    rw [length_setAll hmarked] at hsilent
    exact ⟨setAll_ok_iff.1 ⟨marked, hmarked⟩, hsilent⟩
  · rintro ⟨hloud, hsilent⟩
    obtain ⟨marked, hmarked⟩ := (setAll_ok_iff (v := !p.loudSpeed.eqv 0)).2 hloud
    rw [← length_setAll hmarked] at hsilent
    obtain ⟨both, hboth⟩ := (setAll_ok_iff (v := !p.silentSpeed.eqv 0)).2 hsilent
    exact ⟨_, marked, hmarked, both, hboth, rfl⟩

theorem setRange_ok_iff :
    (∃ out, setRange tb (cells, t) r = .ok out) ↔
      Readable tb cells.length [r.2.1, r.2.2] := by
  simp only [setRange, exists_bind_pure, setOne_ok_iff]

theorem length_setRange (h : setRange tb (cells, t) r = .ok (cells', t')) :
    cells'.length = cells.length := by
  simp only [setRange, bind_eq_ok, pure_eq_ok, Prod.mk.injEq] at h
  obtain ⟨zs, hzs, rfl, -⟩ := h
  exact length_setOne hzs

theorem ranges_ok_iff :
    (∃ out, ranges.foldlM (setRange tb) (cells, t) = .ok out) ↔
      ∀ r ∈ ranges, Readable tb cells.length [r.2.1, r.2.2] := by
  induction ranges generalizing cells t with
  | nil => simp
  | cons r rs ih =>
    simp only [foldlM_cons, bind_eq_ok, forall_mem_cons, Prod.exists]
    constructor
    · rintro ⟨ys, u, zs, v, hzs, hys⟩
      refine ⟨setRange_ok_iff.1 ⟨_, hzs⟩, ?_⟩
      rw [← length_setRange hzs]
      exact ih.1 ⟨_, hys⟩
    · rintro ⟨hr, hrs⟩
      obtain ⟨⟨zs, v⟩, hzs⟩ := setRange_ok_iff.2 hr
      rw [← length_setRange hzs] at hrs
      obtain ⟨⟨ys, u⟩, hys⟩ := ih.2 hrs
      exact ⟨ys, u, zs, v, hzs, hys⟩

theorem cutStep_ok_iff :
    (∃ out, p.cutStep tb cells t = .ok out) ↔ ∀ r ∈ p.cutOut, Readable tb cells.length r := by
  rw [cutStep]
  split
  · next hnil =>
    simp [isEmpty_iff.1 hnil]
  · simp only [exists_bind_pure, setAll_ok_iff]

theorem length_cutStep (h : p.cutStep tb cells t = .ok (cells', t')) :
    cells'.length = cells.length := by
  rw [cutStep] at h
  split at h
  · cases h
    rfl
  · simp only [bind_eq_ok, pure_eq_ok, Prod.mk.injEq] at h
    obtain ⟨zs, hzs, rfl, -⟩ := h
    exact length_setAll hzs

def laidRanges (p : SpeedPlan) : List (List String) :=
  p.cutOut ++ p.addIn ++ p.ranges.map fun r => [r.2.1, r.2.2]

def allRanges (p : SpeedPlan) : List (List String) := p.markLoud ++ p.markSilent ++ p.laidRanges

theorem numbers_ok_iff :
    (∃ out, p.numbers tb flags = .ok out) ↔
      ∀ r ∈ p.laidRanges, Readable tb flags.length r := by
  have hlen : (flags.map fun b => if b then (1 : Int) else 0).length = flags.length := by simp
  simp only [numbers_eq, bind_eq_ok, laidRanges, forall_mem_append, forall_mem_map]
  rw [← hlen, ← cutStep_ok_iff (t := [p.silentSpeed, p.loudSpeed])]
  constructor
  · rintro ⟨out, ⟨cut, u⟩, hcut, added, hadd, hranges⟩
    have hcutlen := length_cutStep hcut
    have haddlen := length_setAll hadd
    have hadds := setAll_ok_iff.1 ⟨added, hadd⟩
    have hrs := ranges_ok_iff.1 ⟨out, hranges⟩
    rw [hcutlen] at hadds
    rw [haddlen, hcutlen] at hrs
    exact ⟨⟨⟨_, hcut⟩, hadds⟩, hrs⟩
  · rintro ⟨⟨⟨⟨cut, u⟩, hcut⟩, hadds⟩, hrs⟩
    rw [← length_cutStep hcut] at hadds hrs
    obtain ⟨added, hadd⟩ := (setAll_ok_iff (v := (1 : Int))).2 hadds
    rw [← length_setAll hadd] at hrs
    obtain ⟨out, hranges⟩ := (ranges_ok_iff (t := u)).2 hrs
    exact ⟨out, _, hcut, added, hadd, hranges⟩

theorem ranges_table (ht : ∀ s ∈ t, P s) (hr : ∀ r ∈ ranges, P r.1)
    (h : ranges.foldlM (setRange tb) (cells, t) = .ok (cells', t')) : ∀ s ∈ t', P s := by
  induction ranges generalizing cells t with
  | nil =>
    cases h
    exact ht
  | cons r rs ih =>
    simp only [foldlM_cons, bind_eq_ok, setRange, pure_eq_ok] at h
    obtain ⟨-, ⟨zs, -, rfl⟩, h⟩ := h
    refine ih (fun s hs => ?_) (fun r' hr' => hr r' (.tail _ hr')) h
    rcases SpeedTable.mem_number hs with hs | rfl
    · exact ht s hs
    · exact hr r (.head _)

theorem numbers_table (hsilent : P p.silentSpeed) (hloud : P p.loudSpeed) (hcut : P 99999)
    (hr : ∀ r ∈ p.ranges, P r.1) (h : p.numbers tb flags = .ok (cells, t)) : ∀ s ∈ t, P s := by
  simp only [numbers_eq, bind_eq_ok] at h
  obtain ⟨⟨cut, u⟩, hstep, added, -, hranges⟩ := h
  refine ranges_table ?_ hr hranges
  have hfirst : ∀ s ∈ [p.silentSpeed, p.loudSpeed], P s := by simp [hsilent, hloud]
  rw [cutStep] at hstep
  split at hstep
  · cases hstep
    exact hfirst
  · simp only [bind_eq_ok, pure_eq_ok, Prod.mk.injEq] at hstep
    obtain ⟨-, -, -, rfl⟩ := hstep
    intro s hs
    rcases SpeedTable.mem_number hs with hs | rfl
    · exact hfirst s hs
    · exact hcut

theorem chunks_speed (hsilent : P p.silentSpeed) (hloud : P p.loudSpeed) (hcut : P 99999)
    (hr : ∀ r ∈ p.ranges, P r.1) (h : p.chunks tb ticks flags = .ok cs) : ∀ c ∈ cs, P c.speed := by
  simp only [chunks, bind_eq_ok] at h
  obtain ⟨loud, -, ⟨cells, t⟩, hnumbers, hruns⟩ := h
  obtain ⟨-, vs, hcode⟩ := runCode_ofRuns hruns
  have htable := numbers_table hsilent hloud hcut hr hnumbers
  have hvalues := hcode.values
  clear hruns hcode
  induction hvalues with
  | nil => simp
  | @cons v c _ _ hv _ ih =>
    rw [forall_mem_cons]
    refine ⟨htable c.speed ?_, ih⟩
    rw [SpeedTable.speed] at hv
    split at hv
    · next s hs =>
      cases hv
      exact mem_of_getElem? hs
    · cases hv

theorem chunks_readable (h : p.chunks tb ticks flags = .ok cs) :
    ∀ r ∈ p.allRanges, Readable tb flags.length r := by
  simp only [chunks, bind_eq_ok] at h
  obtain ⟨loud, hshape, out, hnumbers, -⟩ := h
  have hlaid := numbers_ok_iff.1 ⟨out, hnumbers⟩
  rw [length_shape hshape] at hlaid
  exact forall_mem_append.2 ⟨shape_ok_iff.1 ⟨loud, hshape⟩, hlaid⟩

theorem chunks_ok (ticks : PlanTicks) (htwo : 2 ≤ flags.length)
    (hread : ∀ r ∈ p.allRanges, Readable tb flags.length r) :
    ∃ cs, p.chunks tb ticks flags = .ok cs := by
  obtain ⟨hmarks, hlaid⟩ := forall_mem_append.1 hread
  obtain ⟨loud, hshape⟩ := (@shape_ok_iff tb p ticks flags).2 hmarks
  rw [← length_shape hshape] at htwo hlaid
  obtain ⟨⟨cells, t⟩, hnumbers⟩ := numbers_ok_iff.2 hlaid
  have hstands := stands_numbers hnumbers
  obtain ⟨cs, hcs⟩ : ∃ cs, ofRuns t.speed cells = .ok cs := by
    apply ofRuns_ok (by rw [hstands.length_eq]; exact htwo)
    intro v hv
    obtain ⟨k, hk, rfl⟩ := mem_iff_getElem.1 hv
    rw [hstands.length_eq] at hk
    obtain ⟨i, s, hi, hs, -⟩ := hstands.stands k hk
    have hcell := List.getElem?_eq_some_iff.1 hi
    refine ⟨s, ?_⟩
    rw [hcell.2, SpeedTable.speed, Int.toNat_natCast, hs]
  refine ⟨cs, ?_⟩
  rw [chunks, hshape, ok_bind, hnumbers, ok_bind]
  exact hcs

end SpeedPlan

theorem Chunk.toRat?_of_total {cs : List Chunk} {d : Rat} (h : total cs = .ok d) {c : Chunk}
    (hc : c ∈ cs) (hw : c.speed.Writable) : ∃ q, c.speed.toRat? = some q := by
  induction cs generalizing d with
  | nil => cases hc
  | cons b cs ih =>
    simp only [total_cons, bind_eq_ok, pure_eq_ok] at h
    obtain ⟨a, ha, e, he, -⟩ := h
    rcases mem_cons.1 hc with rfl | hc
    · rw [lasting] at ha
      split at ha
      · next hcut =>
        have h99999 : (99999 : Number).Writable := ⟨.int 99999, rfl⟩
        exact ⟨99999, (Number.Same.toRat?_iff (.inr hcut) hw h99999).2 rfl⟩
      · obtain ⟨q, hq, -⟩ := duration_eq_ok.1 ha
        exact ⟨q, hq⟩
    · exact ih he hc

theorem Chunk.Accepted.hasLimits {cs : List Chunk} (h : Accepted cs) {d : Rat}
    (htotal : total cs = .ok d) : ∀ c ∈ cs, c.HasLimits := by
  intro c hc
  have hw := h.writable c hc
  obtain ⟨q, hq⟩ := toRat?_of_total htotal hc hw
  exact ⟨hw, q, hq, (Number.withinLimits_iff hq).1 (h.withinLimits c hc)⟩

theorem Chunk.HasLimits.hasPace {c : Chunk} (h : c.HasLimits) : c.HasPace := by
  obtain ⟨q, hq, hpos, -⟩ := h.isSpeed
  exact ⟨q, hq, hpos⟩

namespace SpeedPlan

structure FromTexts (p : SpeedPlan) : Prop where
  silent : ∃ text, speed (.text text) = .ok p.silentSpeed
  loud : ∃ text, speed (.text text) = .ok p.loudSpeed
  ranges : ∀ r ∈ p.ranges, ∃ text, speedRange text = .ok r

variable {p : SpeedPlan} {tb : Rat} {ticks : PlanTicks} {flags loud : Flags} {cs : List Chunk}
  {r : Number × String × String}

theorem writable_of_speed {x : Number} (h : ∃ text, speed (.text text) = .ok x) :
    x.Writable := by
  obtain ⟨text, h⟩ := h
  obtain ⟨y, q, rfl, -⟩ := speed_text h
  exact ⟨.float y, rfl⟩

theorem isSpeed_of_speed {x : Number} (h : ∃ text, speed (.text text) = .ok x) :
    x.IsSpeed := by
  obtain ⟨text, h⟩ := h
  obtain ⟨y, q, rfl, hq, hbounds⟩ := speed_text h
  exact ⟨q, hq, hbounds⟩

theorem FromTexts.writable_range (hp : p.FromTexts) (hr : r ∈ p.ranges) : r.1.Writable := by
  obtain ⟨text, h⟩ := hp.ranges r hr
  obtain ⟨x, hx⟩ := speedRange_text h
  exact ⟨.float x, by rw [hx]; rfl⟩

theorem FromTexts.writable_chunks (hp : p.FromTexts) (h : p.chunks tb ticks flags = .ok cs) :
    ∀ c ∈ cs, c.speed.Writable :=
  chunks_speed (writable_of_speed hp.silent) (writable_of_speed hp.loud) ⟨.int 99999, rfl⟩
    (fun _ hr => hp.writable_range hr) h

theorem mem_of_lastRange {n k : Nat} {ranges : List (Number × String × String)}
    (h : lastRange tb n ranges k = some r) : r ∈ ranges :=
  mem_of_mem_filter (mem_of_getLast? h)

theorem FromTexts.layered_isSpeed (hp : p.FromTexts) {k : Nat}
    (hlast : ∀ r, lastRange tb loud.length p.ranges k = some r → r.1.IsSpeed) :
    (p.layered tb loud k).Writable ∧ (p.layered tb loud k).IsSpeed := by
  have hsilent := And.intro (writable_of_speed hp.silent) (isSpeed_of_speed hp.silent)
  have hloud := And.intro (writable_of_speed hp.loud) (isSpeed_of_speed hp.loud)
  rw [layered]
  split
  · next r hr => exact ⟨hp.writable_range (mem_of_lastRange hr), hlast r hr⟩
  · split
    · exact hloud
    · split
      · exact ⟨⟨.int 99999, rfl⟩, 99999, rfl, by norm_num, le_rfl⟩
      · split
        · exact hloud
        · exact hsilent

theorem chunks_speed_layered (h : p.chunks tb ticks flags = .ok cs)
    (hshape : p.shape tb ticks flags = .ok loud) {c : Chunk} (hc : c ∈ cs) :
    ∃ k < loud.length, c.speed.Same (p.layered tb loud k) := by
  obtain ⟨loud', hshape', -, htiles, hspeeds⟩ := chunks_layered h
  obtain rfl : loud = loud' := Except.ok.inj (hshape.symm.trans hshape')
  obtain ⟨hlo, hlt⟩ := htiles.start_le hc
  obtain ⟨k, hk⟩ := Int.eq_ofNat_of_zero_le hlo
  have hk' : k < loud.length := by
    have := htiles.stop_le hc
    omega
  obtain ⟨s, hs, hsame⟩ := hspeeds k hk'
  have hstart := htiles.speedOn_start hc
  rw [hk] at hstart
  obtain rfl := Option.some.inj (hstart.symm.trans hs)
  exact ⟨k, hk', hsame⟩

theorem FromTexts.hasLimits_iff (hp : p.FromTexts) (h : p.chunks tb ticks flags = .ok cs) :
    (∀ c ∈ cs, c.HasLimits) ↔
      ∀ k < flags.length, ∀ r, lastRange tb flags.length p.ranges k = some r → r.1.IsSpeed := by
  have hwritable := hp.writable_chunks h
  obtain ⟨loud, hshape, htwo, htiles, hspeeds⟩ := chunks_layered h
  rw [← length_shape hshape]
  constructor
  · intro hlim k hk r hr
    obtain ⟨s, hs, hsame⟩ := hspeeds k hk
    obtain ⟨c, hfind, rfl⟩ := Option.map_eq_some_iff.1 hs
    have hc : c ∈ cs := mem_of_find?_eq_some hfind
    obtain ⟨q, hq, hbounds⟩ := (hlim c hc).isSpeed
    simp only [layered, hr] at hsame
    have hr' := hp.writable_range (mem_of_lastRange hr)
    exact ⟨q, (hsame.toRat?_iff (hwritable c hc) hr').1 hq, hbounds⟩
  · intro hlast c hc
    obtain ⟨k, hk, hsame⟩ := chunks_speed_layered h hshape hc
    obtain ⟨hw, q, hq, hbounds⟩ := hp.layered_isSpeed (hlast k hk)
    exact ⟨hwritable c hc, q, (hsame.toRat?_iff (hwritable c hc) hw).2 hq, hbounds⟩

theorem FromTexts.accepted_iff (hp : p.FromTexts) :
    (∃ cs, p.chunks tb ticks flags = .ok cs ∧ (∃ d, total cs = .ok d) ∧ Accepted cs) ↔
      2 ≤ flags.length ∧ (∀ r ∈ p.allRanges, Readable tb flags.length r) ∧
        ∀ j < flags.length, ∀ r, lastRange tb flags.length p.ranges j = some r → r.1.IsSpeed := by
  constructor
  · rintro ⟨cs, hcs, ⟨d, htotal⟩, hacc⟩
    obtain ⟨loud, hshape, htwo, -⟩ := chunks_layered hcs
    rw [length_shape hshape] at htwo
    exact ⟨htwo, chunks_readable hcs, (hp.hasLimits_iff hcs).1 (hacc.hasLimits htotal)⟩
  · rintro ⟨htwo, hread, hlast⟩
    obtain ⟨cs, hcs⟩ := chunks_ok ticks htwo hread
    have hlim := (hp.hasLimits_iff hcs).2 hlast
    obtain ⟨loud, -, hlen, htiles, -⟩ := chunks_layered hcs
    have hne : cs ≠ [] := by
      rintro rfl
      have : (0 : Int) = loud.length := htiles
      omega
    exact ⟨cs, hcs, ⟨_, total_eq_sum fun c hc => (hlim c hc).hasPace⟩,
      htiles.accepted hne hlim⟩

end SpeedPlan

theorem Clip.ofChunksFrom_ok_iff {src : String} {first : Bool} {last : Option Int} {start : Rat}
    {cs : List Chunk} :
    (∃ clips, ofChunksFrom src first last start cs = .ok clips) ↔ ∃ d, total cs = .ok d := by
  induction cs generalizing first last start with
  | nil => exact ⟨fun _ => ⟨0, rfl⟩, fun _ => ⟨[], rfl⟩⟩
  | cons c cs ih =>
    rw [ofChunksFrom, total_cons, lasting]
    split
    · rw [ih, ok_bind, exists_bind_pure]
    · cases duration c.length c.speed with
      | error e => simp [bind, Except.bind]
      | ok d =>
        simp only [ok_bind]
        rw [exists_bind_pure]
        split
        · rw [ih]
        · rw [exists_bind_pure, ih]

def EditSetup.ofSource (e : EditSetup) (src : Source) (strict : Bool) : Setup :=
  ⟨src, e.extractor, strict, e.tb, e.bar, e.temp, e.console⟩

section Inputs

variable {e : EditSetup} {o : Options} {ticks : PlanTicks} {strict : Bool} {i : Inputs}
  {scope scope' : Scope} {start : Rat} {w w₁ : Workspace} {k : Nat} {src : Source}
  {flags : Flags}

theorem layInputs_single {cs : List Chunk} {clips : List Clip} {length : Rat}
    (hsrc : i.sources.lookup (toString k) = some src)
    (heval : (e.ofSource src strict).evaluate scope o.edit w = .ok (flags, scope') w₁)
    (hcs : o.plan.chunks e.tb ticks flags = .ok cs)
    (hclips : Clip.ofChunks (toString k) start cs = .ok clips) (htotal : total cs = .ok length) :
    layInputs e o ticks strict i scope start [k] w = .ok [(cs, clips)] w₁ := by
  rw [layInputs, hsrc]
  simp only [run_bind_eq_ok, Console.check_eq_ok, bind_eq_ok, pure_eq_ok, run_pure_eq_ok]
  exact ⟨_, w₁, heval, _, w₁, ⟨⟨cs, hcs, clips, hclips, length, htotal, rfl⟩, rfl⟩, [], w₁,
    by rw [layInputs, run_pure_eq_ok]; exact ⟨rfl, rfl⟩, rfl, rfl⟩

theorem layInputs_single_iff {P : List Chunk → Prop}
    (heval : (e.ofSource src strict).evaluate scope o.edit w = .ok (flags, scope') w₁)
    (hsrc : i.sources.lookup (toString k) = some src) :
    (∃ laid w', layInputs e o ticks strict i scope start [k] w = .ok laid w' ∧
        P (merge (laid.map Prod.fst))) ↔
      ∃ cs, o.plan.chunks e.tb ticks flags = .ok cs ∧ (∃ d, total cs = .ok d) ∧ P cs := by
  constructor
  · rintro ⟨laid, w', hrun, hP⟩
    obtain ⟨src', flags', scope'', w₂, cs, clips, d, rest, hsrc', heval', hcs, -, hd, hrest, rfl⟩ :=
      layInputs_cons hrun
    obtain rfl := Option.some.inj (hsrc.symm.trans hsrc')
    rw [← EditSetup.ofSource, heval] at heval'
    cases heval'
    rw [layInputs, run_pure_eq_ok] at hrest
    obtain ⟨rfl, -⟩ := hrest
    simp only [map_cons, map_nil, merge_singleton] at hP
    exact ⟨cs, hcs, ⟨d, hd⟩, hP⟩
  · rintro ⟨cs, hcs, ⟨d, hd⟩, hP⟩
    obtain ⟨clips, hclips⟩ := Clip.ofChunksFrom_ok_iff.2 ⟨d, hd⟩
    refine ⟨_, _, layInputs_single hsrc heval hcs hclips hd, ?_⟩
    simpa using hP

/-- The edit of one input ends with chunks that the reader of documents accepts if and only if the
input has two ticks or more, all ranges can be read, and no tick has its speed from a range whose
speed is beyond the limits. -/
theorem layInputs_accepted_iff (htexts : o.plan.FromTexts)
    (heval : (e.ofSource src strict).evaluate scope o.edit w = .ok (flags, scope') w₁)
    (hsrc : i.sources.lookup (toString k) = some src) :
    (∃ laid w', layInputs e o ticks strict i scope start [k] w = .ok laid w' ∧
        Accepted (merge (laid.map Prod.fst))) ↔
      2 ≤ flags.length ∧ (∀ r ∈ o.plan.allRanges, Readable e.tb flags.length r) ∧
        ∀ j < flags.length, ∀ r, SpeedPlan.lastRange e.tb flags.length o.speedRanges j = some r →
          r.1.IsSpeed :=
  (layInputs_single_iff heval hsrc).trans htexts.accepted_iff

end Inputs

def rangedTicks (speed : Number) : Options where
  edit := "(boolarr 1 0 0)"
  cutOut := [["start", "end"]]
  speedRanges := [(speed, "1", "2")]

def mutedSource : Source := ⟨"a.mp4", "0", .null, .null, .null, [], [], []⟩

def mutedSetup : Setup := quietSetup.ofSource mutedSource true

def layMuted (o : Options) : Session (List (List Chunk × List Clip)) :=
  layInputs quietSetup o ⟨0, 0, 0, 0⟩ true ⟨[("0", mutedSource)], [0]⟩ Scope.initial 0 [0]

theorem evaluate_rangedTicks (speed : Number) :
    ∃ scope w, mutedSetup.evaluate Scope.initial (rangedTicks speed).edit emptyWorkspace =
      .ok ([true, false, false], scope) w := by
  have hends : ((mutedSetup.evaluate Scope.initial "(boolarr 1 0 0)").run'
      emptyWorkspace).map Prod.fst = some [true, false, false] := by decide +kernel
  obtain ⟨⟨flags, scope⟩, hrun, rfl⟩ := Option.map_eq_some_iff.1 hends
  obtain ⟨w, hw⟩ := run'_eq_some.1 hrun
  exact ⟨scope, w, hw⟩

theorem fromTexts_rangedTicks {speed : Number} {text : String}
    (h : speedRange text = .ok (speed, "1", "2")) : (rangedTicks speed).plan.FromTexts where
  silent := ⟨"99999", rfl⟩
  loud := ⟨"1", rfl⟩
  ranges := by
    intro r hr
    obtain rfl := mem_singleton.1 hr
    exact ⟨text, h⟩

theorem layInputs_accepted_iff_double_speed :
    ∃ laid w', layMuted (rangedTicks (.float 2.0)) emptyWorkspace = .ok laid w' ∧
      Accepted (merge (laid.map Prod.fst)) := by
  obtain ⟨scope, w, heval⟩ := evaluate_rangedTicks (.float 2.0)
  have htexts : (rangedTicks (.float 2.0)).plan.FromTexts :=
    @fromTexts_rangedTicks _ "2,1,2" rfl
  refine (layInputs_accepted_iff htexts heval rfl).2 ⟨by decide, ?_, ?_⟩
  · have hall : (rangedTicks (.float 2.0)).plan.allRanges = [["start", "end"], ["1", "2"]] := rfl
    simp only [hall, List.forall_mem_cons]
    exact ⟨⟨(0, 3), rfl⟩, ⟨(1, 2), rfl⟩, nofun⟩
  · intro j _ r hr
    obtain rfl := List.mem_singleton.1 (SpeedPlan.mem_of_lastRange hr)
    exact ⟨2, by decide +kernel, by norm_num, by norm_num⟩

/-- A single tick cannot be laid, and a range may have a speed that is refused afterwards. -/
theorem layInputs_not_accepted :
    (∀ laid w', layMuted { edit := "(boolarr 1)" } emptyWorkspace ≠ .ok laid w') ∧
      speedRange "-1,1,2" = .ok (.float (-1.0), "1", "2") ∧
      ∃ laid w', layMuted (rangedTicks (.float (-1.0))) emptyWorkspace = .ok laid w' ∧
        ¬ Accepted (merge (laid.map Prod.fst)) := by
  refine ⟨?_, rfl, ?_⟩
  · intro laid w' hrun
    have hfails : ((layMuted { edit := "(boolarr 1)" }).run' emptyWorkspace).isSome = false := by
      decide +kernel
    rw [run'_eq_some.2 ⟨w', hrun⟩] at hfails
    cases hfails
  · have hends : ((layMuted (rangedTicks (.float (-1.0)))).run' emptyWorkspace).isSome := by
      decide +kernel
    obtain ⟨laid, w', hrun⟩ := exists_ok_of_run' hends
    refine ⟨laid, w', hrun, fun hacc => ?_⟩
    obtain ⟨scope, w, heval⟩ := evaluate_rangedTicks (.float (-1.0))
    have htexts : (rangedTicks (.float (-1.0))).plan.FromTexts :=
      @fromTexts_rangedTicks _ "-1,1,2" rfl
    obtain ⟨-, -, hlast⟩ :=
      htexts.accepted_iff.1 ((layInputs_single_iff heval rfl).1 ⟨laid, w', hrun, hacc⟩)
    obtain ⟨q, hq, hpos, -⟩ := hlast 1 (by decide) (.float (-1.0), "1", "2") rfl
    have hvalue : (Number.float (-1.0)).toRat? = some (-1) := by decide +kernel
    rw [hvalue] at hq
    cases hq
    norm_num at hpos

end Jumpcut
