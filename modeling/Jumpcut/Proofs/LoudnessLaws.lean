import Jumpcut.Analysis.Loudness
import Jumpcut.Proofs.ArithmeticLaws
import Jumpcut.Proofs.ReadingLaws

namespace Jumpcut

open Exact Outcome List Session Wave Cache Console Samples

namespace Loudness

section Peak

variable {x : Float} {words : List Nat}

theorem ofFloat?_larger {y : Float} {a b : Rat} (hx : ofFloat? x = some a)
    (hy : ofFloat? y = some b) : ofFloat? (larger x y) = some (max a b) := by
  simp only [larger, isNaN_of_ofFloat? hx, Bool.false_or, decide_eq_true_eq,
    lt_iff_of_ofFloat? hy hx]
  split
  · rename_i h
    rw [hx, max_eq_left h.le]
  · rename_i h
    rw [hy, max_eq_right (not_lt.1 h)]

theorem ofFloat?_smaller {y : Float} {a b : Rat} (hx : ofFloat? x = some a)
    (hy : ofFloat? y = some b) : ofFloat? (smaller x y) = some (min a b) := by
  simp only [smaller, isNaN_of_ofFloat? hx, Bool.false_or, decide_eq_true_eq,
    lt_iff_of_ofFloat? hx hy]
  split
  · rename_i h
    rw [hx, min_eq_left h.le]
  · rename_i h
    rw [hy, min_eq_right (not_lt.1 h)]

theorem ofFloat?_foldl {pick : Float → Float → Float} {best : Rat → Rat → Rat}
    (hpick : ∀ {x y a b}, ofFloat? x = some a → ofFloat? y = some b →
      ofFloat? (pick x y) = some (best a b)) {xs : List Float} {qs : List Rat}
    (h : Forall₂ (fun x q => ofFloat? x = some q) xs qs) {q : Rat} (hx : ofFloat? x = some q) :
    ofFloat? (xs.foldl pick x) = some (qs.foldl best q) := by
  induction h generalizing x q with
  | nil => exact hx
  | cons hy _ ih => exact ih (hpick hx hy)

theorem isGreatest_foldl_max {α : Type} [LinearOrder α] (q : α) (qs : List α) :
    IsGreatest {p | p ∈ q :: qs} (qs.foldl max q) := by
  induction qs generalizing q with
  | nil => simp [IsGreatest, upperBounds]
  | cons p qs ih =>
    obtain ⟨hmem, hbound⟩ := ih (max q p)
    constructor
    · rcases mem_cons.1 hmem with h | h
      · rw [Set.mem_ofPred_eq, foldl_cons, h]
        rcases max_choice q p with h | h <;> rw [h] <;> simp
      · exact .tail _ (.tail _ h)
    · intro r hr
      have hmax : max q p ≤ qs.foldl max (max q p) := hbound (.head _)
      rcases mem_cons.1 hr with rfl | hr
      · exact (le_max_left _ _).trans hmax
      · rcases mem_cons.1 hr with rfl | hr
        · exact (le_max_right _ _).trans hmax
        · exact hbound (.tail _ hr)

theorem isLeast_foldl_min (q : Rat) (qs : List Rat) : IsLeast {p | p ∈ q :: qs} (qs.foldl min q) :=
  @isGreatest_foldl_max Ratᵒᵈ _ q qs

theorem peak_of_values {xs : List Float} {qs : List Rat}
    (h : Forall₂ (fun x q => ofFloat? x = some q) xs qs) (hne : xs ≠ []) :
    ∃ z m, peak xs = .ok z ∧ ofFloat? z = some m ∧ IsGreatest {p | ∃ q ∈ qs, |q| = p} m := by
  cases h with
  | nil => exact absurd rfl hne
  | @cons x q xs qs hx hxs =>
    have hhigh := ofFloat?_foldl ofFloat?_larger hxs hx
    have hlow := ofFloat?_neg (ofFloat?_foldl ofFloat?_smaller hxs hx)
    obtain ⟨hmax, hupper⟩ := isGreatest_foldl_max q qs
    obtain ⟨hmin, hlower⟩ := isLeast_foldl_min q qs
    generalize qs.foldl max q = high at hhigh hmax hupper
    generalize qs.foldl min q = low at hlow hmin hlower
    have hle : low ≤ high := hlower hmax
    refine ⟨_, max high (-low), rfl, ?_, ?_, ?_⟩
    · simp only [lt_iff_of_ofFloat? hhigh hlow]
      split
      · rename_i h
        rw [hlow, max_eq_right h.le]
      · rename_i h
        rw [hhigh, max_eq_left (not_lt.1 h)]
    · rcases le_total (-low) high with h | h
      · exact ⟨high, hmax, by rw [max_eq_left h, abs_of_nonneg (by linarith)]⟩
      · exact ⟨low, hmin, by rw [max_eq_right h, abs_of_nonpos (by linarith)]⟩
    · rintro _ ⟨p, hp, rfl⟩
      exact abs_le.2 ⟨by linarith [hlower hp, le_max_right high (-low)],
        (hupper hp).trans (le_max_left _ _)⟩

def magnitudes (f : SampleFormat) (words : List Nat) : Set Rat :=
  {m | ∃ w ∈ words, ∃ q, (f.value w).toRat? = some q ∧ |q| = m}

theorem exists_isGreatest_magnitudes {f : SampleFormat} (hne : words ≠ [])
    (h : ∀ w ∈ words, ∃ q, (f.value w).toRat? = some q) :
    ∃ m, IsGreatest (magnitudes f words) m := by
  choose! q hq using h
  have hset : magnitudes f words = {m | ∃ w ∈ words, |q w| = m} := by
    ext m
    refine exists_congr fun w => and_congr_right fun hw => ?_
    rw [hq w hw]
    simp
  obtain ⟨w, hw, hmax⟩ := words.toFinset.exists_max_image (|q ·|) (by simpa using hne)
  rw [hset]
  refine ⟨|q w|, ⟨w, mem_toFinset.1 hw, rfl⟩, ?_⟩
  rintro _ ⟨v, hv, rfl⟩
  exact hmax v (mem_toFinset.2 hv)

theorem peak_of_words {s : Samples} {m : Rat} (hne : words ≠ [])
    (h : ∀ w ∈ words, ∃ q, (s.format.value w).toRat? = some q ∧ |q| ≤ largest)
    (hm : IsGreatest (magnitudes s.format words) m) :
    ∃ xs z, floatsOf s words = .ok xs ∧ peak xs = .ok z ∧ ofFloat? z = some (nearest m) := by
  have hround : ∀ w ∈ words, ∃ x q, (s.format.value w).toFloat = .ok x ∧
      (s.format.value w).toRat? = some q ∧ ofFloat? x = some (nearest q) := by
    intro w hw
    obtain ⟨q, hq, hle⟩ := h w hw
    obtain ⟨x, hx, hvalue⟩ := Number.toFloat_ok hq hle
    exact ⟨x, q, hx, hq, hvalue⟩
  choose! x q hx hq hvalue using hround
  have hfloats : floatsOf s words = .ok (words.map x) := by
    rw [floatsOf, mapM_eq_ok, forall₂_map_right_iff, forall₂_same]
    exact hx
  obtain ⟨z, p, hz, hp, ⟨r, hr, hrp⟩, hupper⟩ := @peak_of_values (words.map x)
    (words.map (nearest <| q ·))
    (by
      rw [forall₂_map_left_iff, forall₂_map_right_iff, forall₂_same]
      exact hvalue)
    (by simpa using hne)
  refine ⟨_, z, hfloats, hz, hp.trans (congrArg some (le_antisymm ?_ ?_))⟩
  · obtain ⟨w, hw, rfl⟩ := mem_map.1 hr
    rw [← hrp, abs_nearest]
    exact nearest_mono (hm.2 ⟨w, hw, q w, hq w hw, rfl⟩)
  · obtain ⟨w, hw, v, hv, rfl⟩ := hm.1
    cases hv.symm.trans (hq w hw)
    exact hupper ⟨nearest (q w), mem_map_of_mem hw, abs_nearest _⟩

end Peak

section Windows

variable {per : Rat} {count ticks i : Nat}

/-- The windows of all ticks lie side by side from the start of the sound on, none is empty, and
what is left behind the last one is shorter than a tick and a sample. -/
structure Tiles (per : Rat) (count ticks : Nat) : Prop where
  first : (window per count 0).1 = 0
  next : ∀ i < ticks, (window per count (i + 1)).1 = (window per count i).2
  nonempty : ∀ i < ticks, (window per count i).1 < (window per count i).2
  inside : ∀ i < ticks, (window per count i).2 ≤ count
  rest : (count : Rat) - (window per count ticks).1 < per + 1

theorem toNat_trunc {q : Rat} (h : 0 ≤ q) : (trunc q).toNat = ⌊q⌋₊ := by
  rw [trunc_eq_floor h, Int.floor_toNat]

theorem window_eq (hper : 0 ≤ per) :
    window per count i = (⌊i * per⌋₊, min ⌊(i + 1) * per⌋₊ count) := by
  rw [window, toNat_trunc (by positivity), toNat_trunc (by positivity)]

theorem tiles_windows (hper : 1 ≤ per) : Tiles per count ⌊count / per⌋₊ := by
  have hpos : 0 < per := by linarith
  have hend : ∀ i < ⌊count / per⌋₊, ⌊(i + 1) * per⌋₊ ≤ count := by
    intro i hi
    have hle : ((i + 1 : Nat) : Rat) ≤ count / per := (Nat.le_floor_iff (by positivity)).1 hi
    rw [le_div_iff₀ hpos] at hle
    push_cast at hle
    exact_mod_cast (Nat.floor_le (by positivity)).trans hle
  constructor
  · simp [window_eq hpos.le]
  · intro i hi
    rw [window_eq hpos.le, window_eq hpos.le, min_eq_left (hend i hi)]
    push_cast
    rfl
  · intro i hi
    rw [window_eq hpos.le, min_eq_left (hend i hi), Nat.lt_iff_add_one_le,
      Nat.le_floor_iff (by positivity)]
    push_cast
    linarith [Nat.floor_le (show 0 ≤ i * per by positivity)]
  · intro i hi
    rw [window_eq hpos.le]
    exact min_le_right _ _
  · rw [window_eq hpos.le]
    have hless : (count : Rat) < (⌊count / per⌋₊ + 1) * per := by
      rw [← div_lt_iff₀ hpos]
      exact Nat.lt_floor_add_one _
    linarith [Nat.lt_floor_add_one (⌊count / per⌋₊ * per)]

end Windows

section Levels

variable {s : Samples} {f : SampleFormat} {words : List Nat} {m : Rat}

theorem slice_ne_nil (hs : s.Regular) {lo hi : Nat} (hlt : lo < hi) (hhi : hi ≤ s.frames) :
    s.slice lo hi ≠ [] := by
  have hchannels : 0 < s.channels.getD 1 := by
    cases hc : s.channels with
    | none => exact Nat.one_pos
    | some c => exact Nat.zero_lt_of_lt (hs.rows c hc).1
  have hlo : (lo + 1) * s.channels.getD 1 ≤ s.words.length :=
    (Nat.mul_le_mul_right _ (by omega)).trans s.frames_mul_le
  have hspan : 1 ≤ (hi - lo) * s.channels.getD 1 := Nat.mul_pos (by omega) hchannels
  rw [← length_pos_iff, slice, length_take, length_drop]
  rw [Nat.succ_mul] at hlo
  omega

theorem value_cases (f : SampleFormat) (w : Nat) :
    (∃ n, f.value w = .int n) ∨ ∃ x, f.value w = .float x := by
  rw [SampleFormat.value]
  split
  · exact .inl ⟨_, rfl⟩
  · exact .inl ⟨_, rfl⟩
  · split <;> exact .inr ⟨_, rfl⟩

theorem nearest_magnitude_ne (h : m ∈ magnitudes f words) (hm : m ≠ 0) : nearest m ≠ 0 := by
  obtain ⟨w, -, q, hq, rfl⟩ := h
  rcases value_cases f w with ⟨n, hn⟩ | ⟨x, hx⟩
  · rw [hn] at hq
    cases hq
    have hone : (1 : Rat) ≤ |(n : Rat)| := by
      exact_mod_cast Int.one_le_abs (by simpa using hm)
    exact (zero_lt_one.trans_le (le_nearest_of_le onGrid_one hone)).ne'
  · rw [hx] at hq
    rwa [← abs_nearest, nearest_eq_self (onGrid_of_ofFloat? hq)]

theorem natAbs_signedValue_le {bits word : Nat} (h : word < 2 ^ bits) :
    (SampleFormat.signedValue bits word).natAbs ≤ 2 ^ bits := by
  have hpow : Int.pow 2 bits = ((2 ^ bits : Nat) : Int) := by
    change (2 : Int) ^ bits = _
    norm_cast
  rw [SampleFormat.signedValue, hpow]
  split <;> omega

theorem intCast_le_largest {n : Int} (h : n.natAbs ≤ 2 ^ 64) : |(n : Rat)| ≤ largest := by
  have hlarge : (2 : Int) ^ 64 ≤ largest := by decide +kernel
  have : |n| ≤ largest := by
    rw [Int.abs_eq_natAbs]
    omega
  exact_mod_cast this

theorem abs_value_le (hs : s.Regular) {w : Nat} (hw : w ∈ s.words) {q : Rat}
    (hq : (s.format.value w).toRat? = some q) : |q| ≤ largest := by
  have hbytes : ∀ b ∈ [1, 2, 4, 8], (256 : Nat) ^ b ≤ 2 ^ 64 := by decide
  have hpow : 2 ^ (8 * s.format.bytes) = 256 ^ s.format.bytes := by rw [pow_mul]; norm_num
  have hword := hs.words w hw
  have hvalid := hs.valid
  rw [SampleFormat.isValid.eq_def] at hvalid
  rw [SampleFormat.value] at hq
  cases hkind : s.format.kind with
  | unsigned =>
    simp only [hkind, decide_eq_true_eq] at hvalid hq
    cases hq
    exact intCast_le_largest (by have := hbytes _ hvalid; omega)
  | signed =>
    simp only [hkind, decide_eq_true_eq] at hvalid hq
    cases hq
    rw [← hpow] at hword
    exact intCast_le_largest ((natAbs_signedValue_le hword).trans (hpow ▸ hbytes _ hvalid))
  | float =>
    simp only [hkind] at hq
    split at hq <;> exact abs_le_largest hq

theorem level_bounds {M : Rat} (hm : 0 ≤ m) (hle : m ≤ M) :
    0 ≤ nearest (nearest m / nearest M) ∧ nearest (nearest m / nearest M) ≤ 1 := by
  have hm' := nearest_nonneg hm
  have hM' := nearest_nonneg (hm.trans hle)
  exact ⟨nearest_nonneg (div_nonneg hm' hM'),
    nearest_le_of_le onGrid_one (div_le_one_of_le₀ (nearest_mono hle) hM')⟩

theorem magnitudes_mono {xs ys : List Nat} (h : xs ⊆ ys) : magnitudes f xs ⊆ magnitudes f ys := by
  rintro _ ⟨w, hw, hq⟩
  exact ⟨w, h hw, hq⟩

theorem nonneg_of_mem_magnitudes (h : m ∈ magnitudes f words) : 0 ≤ m := by
  obtain ⟨w, -, q, -, rfl⟩ := h
  exact abs_nonneg q

def within (s : Samples) (per : Rat) (i : Nat) : List Nat :=
  s.slice (window per s.frames i).1 (window per s.frames i).2

variable {per M : Rat} {loudest : Float} {ticks : Nat}

theorem bounded (hs : s.Regular)
    (hfinite : ∀ w ∈ s.words, ∃ q, (s.format.value w).toRat? = some q) :
    ∀ w ∈ s.words, ∃ q, (s.format.value w).toRat? = some q ∧ |q| ≤ largest := by
  intro w hw
  obtain ⟨q, hq⟩ := hfinite w hw
  exact ⟨q, hq, abs_value_le hs hw hq⟩

/-- The levels of all ticks, whatever is the loudest sample: silence gives zeros. -/
structure AreLevels (s : Samples) (per M : Rat) (ticks : Nat) (levels : List Float) : Prop where
  length_eq : levels.length = ticks
  level : ∀ i < ticks, ∃ x m, levels[i]? = some x ∧
    IsGreatest (magnitudes s.format (within s per i)) m ∧
    ofFloat? x = some (nearest (nearest m / nearest M))

theorem areLevels_silence
    (hexists : ∀ i < ticks, ∃ m, IsGreatest (magnitudes s.format (within s per i)) m) :
    AreLevels s per 0 ticks (replicate ticks 0.0) := by
  refine ⟨length_replicate, fun i hi => ?_⟩
  obtain ⟨m, hm⟩ := hexists i hi
  refine ⟨0.0, m, getElem?_replicate_of_lt hi, hm, ?_⟩
  rw [nearest_zero, div_zero, nearest_zero]
  decide +kernel

section

variable (hs : s.Regular) (hfinite : ∀ w ∈ s.words, ∃ q, (s.format.value w).toRat? = some q)
  (hM : IsGreatest (magnitudes s.format s.words) M) (hne : M ≠ 0)
  (hloudest : ofFloat? loudest = some (nearest M)) (htiles : Tiles per s.frames ticks)

include hs hfinite hM hne hloudest htiles

theorem levelAt_ok {i : Nat} (hi : i < ticks) (hm : IsGreatest (magnitudes s.format (within s per i)) m) :
    ∃ x, levelAt s per loudest i = .ok x ∧ ofFloat? x = some (nearest (nearest m / nearest M)) := by
  have hsub : within s per i ⊆ s.words := s.slice_subset _ _
  have hwithin : within s per i ≠ [] := slice_ne_nil hs (htiles.nonempty i hi) (htiles.inside i hi)
  obtain ⟨xs, z, hxs, hz, hvalue⟩ :=
    peak_of_words hwithin (fun w hw => bounded hs hfinite w (hsub hw)) hm
  refine ⟨z / loudest, ?_, ?_⟩
  · change (do return (← peak (← floatsOf s (within s per i))) / loudest) = _
    rw [hxs, ok_bind, hz, ok_bind]
    rfl
  · have hle := hM.2 (magnitudes_mono hsub hm.1)
    have hbounds := level_bounds (nonneg_of_mem_magnitudes hm.1) hle
    rw [ofFloat?_div hvalue hloudest (nearest_magnitude_ne hM.1 hne)]
    exact inRange?_of_le (le_largest (by
      rw [abs_of_nonneg hbounds.1]
      exact hbounds.2.trans (by norm_num)))

theorem levels_ok
    (hexists : ∀ i < ticks, ∃ m, IsGreatest (magnitudes s.format (within s per i)) m) :
    ∃ levels, Loudness.levels s per loudest ticks = .ok levels ∧ AreLevels s per M ticks levels := by
  choose! m hm using hexists
  have hlevel := fun i hi => levelAt_ok hs hfinite hM hne hloudest htiles hi (hm i hi)
  choose! x hx hvalue using hlevel
  refine ⟨(range ticks).map x, ?_, by simp, fun i hi => ⟨x i, m i, ?_, hm i hi, hvalue i hi⟩⟩
  · rw [Loudness.levels, mapM_eq_ok, forall₂_map_right_iff, forall₂_same]
    intro i hi
    exact hx i (mem_range.1 hi)
  · rw [getElem?_map, getElem?_range hi]
    rfl

end

end Levels

end Loudness

theorem Charset.has_of_lt (cs : Charset) {c : Char} (h : c.toNat < 128) : cs.has c = true := by
  cases cs with
  | unicode => rfl
  | latin => exact decide_eq_true (h.trans (by norm_num))
  | ascii => exact decide_eq_true h

theorem Session.write_ok {text : String} (h : ∀ c ∈ text.toList, c.toNat < 128) (w : Workspace) :
    write text w = .ok () { w with out := w.out ++ text } := by
  have hall : text.toList.all w.charset.has = true :=
    all_eq_true.2 fun c hc => w.charset.has_of_lt (h c hc)
  change (if text.toList.all w.charset.has = true then (set { w with out := w.out ++ text } :
    Session Unit) else throw .unencodable) w = _
  rw [if_pos hall]
  rfl

theorem Console.lt_of_mem_spaces {n : Int} {c : Char} (h : c ∈ (spaces n).toList) :
    c.toNat < 128 := by
  rw [spaces, String.toList_ofList] at h
  rw [eq_of_mem_replicate h]
  decide

theorem Console.overwrite_ok (c : Console) {message : String}
    (h : ∀ x ∈ message.toList, x.toNat < 128) (w : Workspace) :
    ∃ w', c.overwrite message w = .ok () w' := by
  rw [overwrite]
  cases c.quiet with
  | true => exact ⟨w, rfl⟩
  | false =>
    rw [if_pos (by decide), run_bind_of_ok (show (get : Session Workspace) w = .ok w w from rfl)]
    refine ⟨_, write_ok ?_ w⟩
    intro x hx
    simp only [String.toList_append, mem_append] at hx
    rcases hx with ((hx | hx) | hx) | hx
    · exact (show ∀ x ∈ [' ', ' '], x.toNat < 128 by simp) x hx
    · exact h x hx
    · exact lt_of_mem_spaces hx
    · exact (show ∀ x ∈ ['\r'], x.toNat < 128 by simp) x hx

theorem Console.note_ok (c : Console) (message : String) (w : Workspace) :
    ∃ w', c.note message w = .ok () w' := by
  rw [note]
  cases c.debug with
  | false => exact ⟨w, rfl⟩
  | true =>
    obtain ⟨w', hw⟩ := @c.overwrite_ok "" (by simp) w
    rw [if_pos rfl, run_bind_of_ok hw]
    exact ⟨_, rfl⟩

theorem Cache.eq_of_save {temp path : String} {k : Key} {l l' : Levels} {w w' : Workspace}
    (h : save temp path k l w = .ok l' w') : l' = l := by
  obtain ⟨known, w₁, -, h⟩ := run_bind_eq_ok.1 h
  dsimp only at h
  split at h
  · simp only [run_bind_eq_ok, run_pure_eq_ok] at h
    obtain ⟨-, w₂, -, -, w₃, -, -, w₄, -, -, w₅, -, -, w₆, -, hl, -⟩ := h
    exact hl.symm
  · simp only [run_bind_eq_ok, run_pure_eq_ok] at h
    obtain ⟨-, w₂, -, -, w₃, -, -, w₄, -, -, w₅, -, hl, -⟩ := h
    exact hl.symm

theorem floatTextOf_ok {q : Rat} (h : |q| ≤ largest) : ∃ text, floatTextOf q = .ok text := by
  obtain ⟨x, hx, -⟩ := Number.nearestFloat_ok h
  exact ⟨_, by rw [floatTextOf, hx]; rfl⟩

theorem Setup.sound_regular {s : Setup} {stream : Int} {w w' : Workspace} {sound : Sound}
    (h : s.sound stream w = .ok sound w') : sound.samples.Regular := by
  simp only [Setup.sound, run_bind_eq_ok, ofExcept_eq_ok] at h
  obtain ⟨path, w₁, -, bytes, w₂, -, hread, -⟩ := h
  exact read_regular hread

namespace Setup

open Loudness

variable {s : Setup} {stream : Int} {w w₁ w₂ : Workspace} {sound : Sound}

theorem ticks_eq {count rate : Nat} {tb : Rat} (h : 1 ≤ (rate : Rat) / tb) :
    samplesPerTick rate tb = .ok (rate / tb) ∧
      soundTicks count rate tb = .ok (count / ((rate : Rat) / tb)) ∧
      trunc (count / ((rate : Rat) / tb)) = ⌊count / ((rate : Rat) / tb)⌋₊ := by
  have htb : tb ≠ 0 := by
    rintro rfl
    rw [div_zero] at h
    linarith
  have hper : samplesPerTick rate tb = .ok (rate / tb) := if_neg htb
  refine ⟨hper, ?_, ?_⟩
  · rw [soundTicks, hper, ok_bind, if_neg (by linarith)]
    rfl
  · rw [trunc_eq_floor (by positivity), Int.natCast_floor_eq_floor (by positivity)]

theorem lengthText_ok {samples : Samples} (hs : samples.Regular) {per : Rat} (hper : 1 ≤ per) :
    ∃ text, floatTextOf (samples.frames / per) = .ok text := by
  refine floatTextOf_ok ?_
  rw [abs_of_nonneg (by positivity)]
  calc (samples.frames : Rat) / per ≤ samples.frames := div_le_self (by positivity) hper
    _ = |((samples.frames : Int) : Rat)| := by simp
    _ ≤ largest :=
      intCast_le_largest ((samples.frames_le.trans hs.length_lt.le).trans (by norm_num))

section Fresh

variable (hstream : stream < s.src.audios.length)
  (hfresh : stored s.temp s.src.path (loudnessKey s.tb stream) w = .ok none w₁)
  (hsound : s.sound stream w₁ = .ok sound w₂) (hcount : 1 ≤ sound.samples.frames)
  (hper : 1 ≤ (sound.rate : Rat) / s.tb)
  (hfinite : ∀ x ∈ sound.samples.words, ∃ q, (sound.samples.format.value x).toRat? = some q)
include hstream hfresh hsound hcount hper hfinite

theorem loudness_eq :
    ∃ (M : Rat) (levels : List Float) (w₃ : Workspace),
      IsGreatest (magnitudes sound.samples.format sound.samples.words) M ∧
      AreLevels sound.samples (sound.rate / s.tb) M
        ⌊sound.samples.frames / ((sound.rate : Rat) / s.tb)⌋₊ levels ∧
      s.loudness stream w = (do
        let bar ← s.bar.start (.int ⌊sound.samples.frames / ((sound.rate : Rat) / s.tb)⌋₊)
          "Analyzing audio volume"
        if M = 0 then return ⟨.share, levels.map .float⟩
        else
          bar.tickAll ⌊sound.samples.frames / ((sound.rate : Rat) / s.tb)⌋₊
          Bar.finish
          save s.temp s.src.path (loudnessKey s.tb stream) ⟨.share, levels.map .float⟩ :
            Session Levels) w₃ := by
  have hregular := sound_regular hsound
  obtain ⟨hperTick, hticks, htrunc⟩ := @ticks_eq sound.samples.frames sound.rate s.tb hper
  generalize (sound.rate : Rat) / s.tb = per at hper hperTick hticks htrunc ⊢
  have hne : sound.samples.words ≠ [] := by
    have := hcount.trans sound.samples.frames_le
    rintro h
    rw [h] at this
    cases this
  obtain ⟨M, hM⟩ := exists_isGreatest_magnitudes hne hfinite
  obtain ⟨xs, loudest, hxs, hpeak, hloudest⟩ := peak_of_words hne (bounded hregular hfinite) hM
  obtain ⟨text, htext⟩ := lengthText_ok hregular hper
  have htiles : Tiles per sound.samples.frames ⌊sound.samples.frames / per⌋₊ := tiles_windows hper
  have hexists : ∀ i < ⌊sound.samples.frames / per⌋₊,
      ∃ m, IsGreatest (magnitudes sound.samples.format (within sound.samples per i)) m := by
    intro i hi
    exact exists_isGreatest_magnitudes
      (slice_ne_nil hregular (htiles.nonempty i hi) (htiles.inside i hi))
      fun x hx => hfinite x (slice_subset _ _ _ hx)
  have hloud : (do peak (← floatsOf sound.samples sound.samples.words)) = .ok loudest := by
    rw [hxs, ok_bind, hpeak]
  obtain ⟨w₃, hnote⟩ := s.console.note_ok ("Max volume: " ++ Decimal.plain.float loudest) w₂
  obtain ⟨w₄, hnote'⟩ := s.console.note_ok
    ("analyze: Audio Length: " ++ toString (⌊sound.samples.frames / per⌋₊ : Int)) w₃
  obtain ⟨w₅, hnote''⟩ := s.console.note_ok ("... no rounding: " ++ text) w₄
  rw [Setup.loudness, if_neg (not_le.2 hstream)]
  dsimp only
  rw [run_bind_of_ok hfresh]
  dsimp only
  rw [run_bind_of_ok hsound, hloud, ofExcept_ok, pure_bind, run_bind_of_ok hnote, hperTick,
    hticks, ofExcept_ok, ofExcept_ok, pure_bind, pure_bind, htrunc,
    run_bind_of_ok hnote', htext, ofExcept_ok, pure_bind, run_bind_of_ok hnote'']
  by_cases hzero : M = 0
  · subst hzero
    have hsilent : (loudest == 0.0) = true := (beq_zero_iff hloudest).2 nearest_zero
    refine ⟨0, _, w₅, hM, areLevels_silence hexists, ?_⟩
    simp only [hsilent, if_true, Levels.zero, Int.toNat_natCast, map_replicate]
  · have hsounds : (loudest == 0.0) = false := beq_zero_of_ne hloudest (nearest_magnitude_ne hM.1 hzero)
    obtain ⟨levels, hlevels, hare⟩ := levels_ok hregular hfinite hM hzero hloudest htiles hexists
    refine ⟨M, levels, w₅, hM, hare, ?_⟩
    simp only [hsounds, if_neg hzero, Int.toNat_natCast, hlevels, ofExcept_ok, pure_bind]
    rfl

/-- The levels of a stream that is there and was not analysed before. The windows of the ticks tile
the sound; every level lies between zero and one, and that of a tick that holds a loudest sample is
one. The levels are all found: what is left is to show the progress and to keep them. -/
theorem loudness_windows :
    ∃ (per : Rat) (ticks : Nat), per = sound.rate / s.tb ∧ ticks = ⌊sound.samples.frames / per⌋₊ ∧
      Tiles per sound.samples.frames ticks ∧
      ∃ (M : Rat) (levels : List Float),
        IsGreatest (magnitudes sound.samples.format sound.samples.words) M ∧
        levels.length = ticks ∧
        (∀ i < ticks, ∃ x m r, levels[i]? = some x ∧ ofFloat? x = some r ∧
          IsGreatest (magnitudes sound.samples.format (within sound.samples per i)) m ∧
          r = nearest (nearest m / nearest M) ∧ 0 ≤ r ∧ r ≤ 1 ∧
          (M ≠ 0 → M ∈ magnitudes sound.samples.format (within sound.samples per i) → r = 1)) ∧
        (∀ found w', s.loudness stream w = .ok found w' → found = ⟨.share, levels.map .float⟩) ∧
        ∃ w₃, s.loudness stream w = (do
          let bar ← s.bar.start (.int ticks) "Analyzing audio volume"
          if M = 0 then return ⟨.share, levels.map .float⟩
          else
            bar.tickAll ticks
            Bar.finish
            save s.temp s.src.path (loudnessKey s.tb stream) ⟨.share, levels.map .float⟩ :
              Session Levels) w₃ := by
  obtain ⟨M, levels, w₃, hM, hlevels, hrun⟩ :=
    loudness_eq hstream hfresh hsound hcount hper hfinite
  refine ⟨_, _, rfl, rfl, tiles_windows hper, M, levels, hM, hlevels.length_eq, ?_, ?_, w₃, hrun⟩
  · intro i hi
    obtain ⟨x, m, hx, hm, hvalue⟩ := hlevels.level i hi
    have hle := hM.2 (magnitudes_mono (slice_subset _ _ _) hm.1)
    have hbounds := level_bounds (nonneg_of_mem_magnitudes hm.1) hle
    refine ⟨x, m, _, hx, hvalue, hm, rfl, hbounds.1, hbounds.2, fun hne hmem => ?_⟩
    rw [le_antisymm hle (hm.2 hmem), div_self (nearest_magnitude_ne hM.1 hne),
      nearest_eq_self onGrid_one]
  · intro found w' hfound
    rw [hrun] at hfound
    obtain ⟨bar, w₄, -, hfound⟩ := run_bind_eq_ok.1 hfound
    split at hfound
    · exact (run_pure_eq_ok.1 hfound).1.symm
    · obtain ⟨-, w₅, -, hfound⟩ := run_bind_eq_ok.1 hfound
      obtain ⟨-, w₆, -, hfound⟩ := run_bind_eq_ok.1 hfound
      exact eq_of_save hfound

end Fresh

def fiveSamples : Sound := ⟨5, ⟨.signed, 2, .little⟩, none, [100, 65336, 0, 50, 100]⟩

def twoTicks : Setup where
  src :=
    { path := "a.wav", label := "0", bitrate := .null, duration := .null, description := .null,
      videos := [], subtitles := [], audios := [⟨"pcm_s16le", 5, none, .null, .null⟩] }
  extractor := ⟨⟨"ffmpeg", "", false⟩, 5, "", .plain⟩
  strict := true
  tb := 2
  bar := .hidden
  temp := ""
  console := .plain

def takenOut : Workspace where
  tree := ⟨[("/work/0-0.wav", ⟨((write 5 fiveSamples.samples).toOption.getD []).toArray⟩)],
    ["/work"]⟩
  media := []
  programs := ⟨"", "", "", false, none, none, "", false, "", []⟩
  platform := .linux

theorem sound_takenOut : ∃ w₁ w₂,
    stored twoTicks.temp twoTicks.src.path (loudnessKey twoTicks.tb 0) takenOut = .ok none w₁ ∧
      twoTicks.sound 0 w₁ = .ok fiveSamples w₂ := by
  have hrun : ((do
      let known ← stored twoTicks.temp twoTicks.src.path (loudnessKey twoTicks.tb 0)
      let sound ← twoTicks.sound 0
      return (known.isNone, sound)) : Session (Bool × Sound)).run' takenOut =
        some (true, fiveSamples) := by
    decide +kernel
  obtain ⟨w', hrun⟩ := run'_eq_some.1 hrun
  simp only [run_bind_eq_ok, run_pure_eq_ok, Prod.mk.injEq, Option.isNone_iff_eq_none] at hrun
  obtain ⟨-, w₁, hknown, -, w₂, hsound, ⟨rfl, rfl⟩, rfl⟩ := hrun
  exact ⟨w₁, w₂, hknown, hsound⟩

theorem loudest_fiveSamples :
    IsGreatest (magnitudes fiveSamples.samples.format fiveSamples.samples.words) 200 := by
  refine ⟨⟨65336, by decide, (-200 : Int), by decide, by norm_num⟩, ?_⟩
  rintro _ ⟨x, hx, q, hq, rfl⟩
  have hall : ∀ x ∈ fiveSamples.samples.words,
      (fiveSamples.samples.format.value x).toRat?.any (|·| ≤ 200) = true := by decide +kernel
  simpa [hq] using hall x hx

theorem loudness_windows_two_ticks : ∃ (levels : List Float) (w' : Workspace) (x : Float),
    twoTicks.loudness 0 takenOut = .ok ⟨.share, levels.map .float⟩ w' ∧ levels.length = 2 ∧
      levels[0]? = some x ∧ ofFloat? x = some 1 := by
  obtain ⟨w₁, w₂, hfresh, hsound⟩ := sound_takenOut
  have hends : ((twoTicks.loudness 0).run' takenOut).isSome := by decide +kernel
  obtain ⟨found, w', hrun⟩ := exists_ok_of_run' hends
  have hfinite : ∀ x ∈ fiveSamples.samples.words, ∃ q,
      (fiveSamples.samples.format.value x).toRat? = some q := fun x _ => ⟨_, rfl⟩
  obtain ⟨per, ticks, hper, hticks, -, M, levels, hM, hlength, hlevel, hfound, -⟩ :=
    @loudness_windows twoTicks 0 takenOut w₁ w₂ fiveSamples (by decide) hfresh hsound (by decide)
      (by norm_num [fiveSamples, twoTicks]) hfinite
  have hper : per = 5 / 2 := hper
  have hticks : ticks = 2 := by
    rw [hticks, hper, show fiveSamples.samples.frames = 5 from rfl]
    norm_num
  cases hM.unique loudest_fiveSamples
  obtain ⟨x, m, r, hx, hr, -, -, -, -, hone⟩ := hlevel 0 (by omega)
  have hwithin : within fiveSamples.samples per 0 = [100, 65336] := by
    rw [hper]
    decide +kernel
  cases hone (by norm_num) (hwithin ▸ ⟨65336, by decide, (-200 : Int), by decide, by norm_num⟩)
  cases hfound found w' hrun
  exact ⟨levels, w', x, hrun, hlength.trans hticks, hx, hr⟩

end Setup

end Jumpcut
