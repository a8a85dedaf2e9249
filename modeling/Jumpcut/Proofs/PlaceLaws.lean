import Jumpcut.Exchange.Premiere
import Jumpcut.Proofs.ChunkListLaws
import Jumpcut.Proofs.ClipLaws

/-!
Where the clips of a track lie. Times are binary64 numbers, and a running total counts the kept
ticks as long as the counts are such numbers. At any speed the places are in order: the ticks of a
sum are no fewer than those of its parts.
-/
namespace Jumpcut

open Outcome List Number Exact

namespace Exact

theorem exists_nearest_intCast (n : Int) : ∃ m : Int, nearest n = m := by
  rcases lt_or_ge |n| (2 ^ 53) with hlt | hge
  · exact ⟨n, nearest_eq_self (onGrid_intCast hlt)⟩
  · have hexp : 0 ≤ gridExp n := by
      by_contra hneg
      have hlarge := abs_lt_of_gridExp n
      have hpow : (2 : Rat) ^ gridExp n ≤ 1 := zpow_le_one_of_nonpos₀ (by norm_num) (by omega)
      have hcast : (2 ^ 53 : Rat) ≤ |(n : Rat)| := by exact_mod_cast hge
      linarith
    refine ⟨round (n / 2 ^ gridExp n) * 2 ^ (gridExp n).toNat, ?_⟩
    rw [nearest, Int.cast_mul, Int.cast_pow, ← zpow_natCast, Int.toNat_of_nonneg hexp]
    rfl

theorem trunc_nearest_eq_iff {n : Int} : trunc (nearest n) = n ↔ nearest n = n := by
  obtain ⟨m, hm⟩ := exists_nearest_intCast n
  rw [hm, trunc_intCast, Int.cast_inj]

def isBinary (q : Rat) : Bool := (toFloat? q).bind ofFloat? = some q

theorem isSome_toFloat?_iff {q : Rat} : (toFloat? q).isSome ↔ |nearest q| < limit := by
  have hspec := toFloat?_spec q
  rw [inRange?] at hspec
  split at hspec
  · next h =>
    obtain ⟨x, hx, -⟩ := Option.map_eq_some_iff.1 hspec
    simp [hx, h]
  · next h =>
    rw [Option.map_none, Option.map_eq_none_iff] at hspec
    simp [hspec, h]

theorem isBinary_iff {q : Rat} : isBinary q ↔ (toFloat? q).isSome ∧ nearest q = q := by
  rw [isBinary, decide_eq_true_eq]
  cases h : toFloat? q with
  | none => simp
  | some x => simp [ofFloat?_of_toFloat? h]

theorem eq_of_inRange? {v u : Rat} (h : inRange? v = some u) : u = v := by
  rw [inRange?] at h
  split at h
  · exact (Option.some_inj.1 h).symm
  · cases h

theorem inRange?_of_isBinary {q : Rat} (h : isBinary q) : inRange? (nearest q) = some q := by
  obtain ⟨hsome, hself⟩ := isBinary_iff.1 h
  rw [inRange?, if_pos (isSome_toFloat?_iff.1 hsome), hself]

end Exact

namespace Number

open Exact

theorem writable_iff {x : Number} : x.Writable ↔ (∃ n, x = .int n) ∨ ∃ y, x = .float y := by
  cases x <;> simp [Writable, Json.ofWritable]

theorem toRat?_zero : (float 0.0).toRat? = some 0 := by decide +kernel

theorem toRat?_one : (float 1.0).toRat? = some 1 := by decide +kernel

theorem exists_float_of_div {n : Int} {s d : Number} (hs : s.Writable)
    (h : div (.int n) s = .ok d) : ∃ x, d = .float x := by
  obtain ⟨m, rfl⟩ | ⟨y, rfl⟩ := writable_iff.1 hs
  · rw [div] at h
    split at h
    · cases h
    · simp only [bind_eq_ok, pure_eq_ok] at h
      obtain ⟨x, -, rfl⟩ := h
      exact ⟨x, rfl⟩
  · simp only [div, bind_eq_ok] at h
    obtain ⟨a, -, b, -, h⟩ := h
    split at h
    · cases h
    · cases h
      exact ⟨_, rfl⟩

theorem isWritable_of_abs_le {n : Int} (h : |n| ≤ 2 * largest) : isWritable n := by
  have hle : n.natAbs ≤ (2 * largest).natAbs := by
    rw [Int.abs_eq_natAbs] at h
    omega
  have hlimit : 205 * 5 ≤ Decimal.digitLimit := by decide
  rw [isWritable, decide_eq_true_eq, Nat.pow_eq]
  generalize Decimal.digitLimit = limit at hlimit ⊢
  have hpow : ∀ {a b : Nat}, a * b ≤ limit → (10 ^ a) ^ b ≤ 10 ^ limit := by
    intro a b hab
    rw [← pow_mul]
    exact Nat.pow_le_pow_right (by norm_num) hab
  calc n.natAbs ≤ (2 * largest).natAbs := hle
    _ < (2 ^ 205) ^ 5 := by decide +kernel
    _ ≤ (10 ^ 205) ^ 5 := Nat.pow_le_pow_left (Nat.pow_le_pow_left (by norm_num) 205) 5
    _ ≤ 10 ^ limit := hpow hlimit

theorem abs_trunc_le {x : Float} {n : Int} (h : trunc (.float x) = .ok n) : |n| ≤ largest := by
  obtain ⟨q, hq, rfl⟩ := trunc_float.1 h
  have hcut : |Exact.trunc q| = (q.num.natAbs / q.den : Nat) := by
    rw [Exact.trunc, Int.abs_eq_natAbs, Int.natAbs_tdiv, Int.natAbs_natCast]
    rfl
  have habs : ((q.num.natAbs : Nat) : Rat) / q.den = |q| := by
    rw [Nat.cast_natAbs, Int.cast_abs, ← Nat.abs_cast q.den, ← abs_div, Rat.num_div_den]
  rw [hcut, ← Int.cast_le (R := Rat), Int.cast_natCast]
  exact Nat.cast_div_le.trans (habs.le.trans (abs_le_largest hq))

variable {n : Int} {x : Float}

theorem trunc_nearest (hx : ofFloat? x = inRange? (nearest n)) :
    trunc (.float x) = .ok n ↔ isBinary n := by
  rw [trunc_float, isBinary_iff, isSome_toFloat?_iff, hx, inRange?]
  split
  · next h => simp [trunc_nearest_eq_iff, h]
  · next h => simp [h]

theorem ofFloat?_of_isBinary (hx : ofFloat? x = inRange? (nearest n)) (hn : isBinary n) :
    ofFloat? x = some (n : Rat) :=
  hx.trans (inRange?_of_isBinary hn)

section

variable {s : Number} (hs : s.Writable) (hone : s.toRat? = some 1)

include hs hone

theorem div_speed_one (n : Int) :
    toFloat? n = none ∧ div (.int n) s = .error .tooLarge ∨
      ∃ x, (toFloat? n).isSome ∧ div (.int n) s = .ok (.float x) ∧
        ofFloat? x = some (nearest n) := by
  obtain ⟨m, rfl⟩ | ⟨y, rfl⟩ := writable_iff.1 hs
  · have hm : m = 1 := by
      rw [toRat?, Option.some_inj] at hone
      exact_mod_cast hone
    have hdiv : div (.int n) (.int m) = (do return .float (← nearestFloat n)) := by
      rw [div, if_neg (by omega), hm, Int.cast_one, div_one]
    rw [hdiv, nearestFloat]
    cases hx : toFloat? n with
    | none => exact .inl ⟨rfl, rfl⟩
    | some x => exact .inr ⟨x, rfl, rfl, ofFloat?_of_toFloat? hx⟩
  · rw [toRat?] at hone
    have hdiv : div (.int n) (.float y) = (do return .float ((← nearestFloat n) / y)) := by
      simp only [div, toFloat, ok_bind, beq_zero_of_ne hone one_ne_zero, Bool.false_eq_true,
        if_false]
    rw [hdiv, nearestFloat]
    cases hx : toFloat? n with
    | none => exact .inl ⟨rfl, rfl⟩
    | some x =>
      have hvalue := ofFloat?_of_toFloat? hx
      refine .inr ⟨x / y, rfl, rfl, ?_⟩
      rw [ofFloat?_div hvalue hone one_ne_zero, div_one,
        nearest_eq_self (onGrid_of_ofFloat? hvalue), inRange?_of_le (abs_le_largest hvalue)]

theorem div_speed_one_eq_ok {d : Number} (h : div (.int n) s = .ok d) :
    (toFloat? n).isSome ∧ ∃ x, d = .float x ∧ ofFloat? x = inRange? (nearest n) := by
  rcases div_speed_one hs hone n with ⟨-, herror⟩ | ⟨x, hsome, hx, hvalue⟩
  · rw [herror] at h
    cases h
  · rw [hx] at h
    cases h
    refine ⟨hsome, x, rfl, ?_⟩
    rw [hvalue, inRange?, if_pos (isSome_toFloat?_iff.1 hsome)]

theorem div_speed_one_ok (h : (toFloat? n).isSome) :
    ∃ x, div (.int n) s = .ok (.float x) ∧ ofFloat? x = some (nearest n) := by
  rcases div_speed_one hs hone n with ⟨hnone, -⟩ | ⟨x, -, hx⟩
  · rw [hnone] at h
    cases h
  · exact ⟨x, hx⟩

end

end Number

namespace Chunk

/-- The kept chunks, each with the number of kept ticks before it. -/
def laid (n : Int) : List Chunk → List (Int × Chunk)
  | [] => []
  | c :: cs => if c.isCut then laid n cs else (n, c) :: laid (n + c.length) cs

theorem laid_filter (n : Int) (cs : List Chunk) : laid n (cs.filter (!·.isCut)) = laid n cs := by
  induction cs generalizing n with
  | nil => rfl
  | cons c cs ih =>
    by_cases h : c.isCut
    · rw [filter_cons_of_neg (by simp [h]), ih, laid, if_pos h]
    · rw [filter_cons_of_pos (by simp [h]), laid, laid, if_neg h, if_neg h, ih]

structure Even (c : Chunk) : Prop where
  writable : c.speed.Writable
  value : c.speed.toRat? = some 1

theorem Plain.even {c : Chunk} (h : c.Plain) (hw : c.speed.Writable) (hcut : ¬ c.isCut) :
    c.Even where
  writable := hw
  value := h.resolve_right fun hvalue => hcut ((isCut_iff hvalue).2 rfl)

/-- The numbers that a clip of the chunk needs are those of binary64, and its end is not beyond. -/
structure Unrounded (n : Int) (c : Chunk) : Prop where
  before : isBinary n
  length : isBinary c.length
  start : isBinary c.start
  stop : (toFloat? c.stop).isSome

theorem unrounded_of_lt {n : Int} {c : Chunk} (hn : |n| < 2 ^ 53) (hlength : |c.length| < 2 ^ 53)
    (hstart : |c.start| < 2 ^ 53) (hstop : |c.stop| < 2 ^ 53) : c.Unrounded n := by
  have hbinary : ∀ {m : Int}, |m| < 2 ^ 53 → isBinary m := by
    intro m hm
    have hself := nearest_eq_self (onGrid_intCast hm)
    rw [isBinary_iff, isSome_toFloat?_iff, hself]
    have hle : |(m : Rat)| ≤ 2 ^ 53 := by exact_mod_cast hm.le
    exact ⟨(le_largest hle).trans_lt largest_lt_limit, rfl⟩
  exact ⟨hbinary hn, hbinary hlength, hbinary hstart, (isBinary_iff.1 (hbinary hstop)).1⟩

theorem Tiles.unrounded {lo hi : Int} {cs : List Chunk} (h : Tiles lo hi cs) {n : Int} (hn : 0 ≤ n)
    (hlo : n ≤ lo) (hhi : hi < 2 ^ 53) : ∀ nc ∈ laid n cs, nc.2.Unrounded nc.1 := by
  induction cs generalizing lo n with
  | nil => simp [laid]
  | cons c cs ih =>
    obtain ⟨rfl, hlt, hcs⟩ := h
    have hle := hcs.le
    have hlength : c.length = c.stop - c.start := rfl
    rw [laid]
    split
    · exact ih hcs hn (by omega)
    · rw [forall_mem_cons]
      have hsmall : ∀ {m : Int}, 0 ≤ m → m ≤ hi → |m| < 2 ^ 53 := by
        intro m hm hmhi
        rw [abs_of_nonneg hm]
        omega
      have hc : c.Unrounded n := unrounded_of_lt (hsmall hn (by omega))
        (hsmall (by omega) (by omega)) (hsmall (by omega) (by omega)) (hsmall (by omega) hle)
      exact ⟨hc, ih hcs (by omega) (by omega)⟩

end Chunk

namespace Premiere

open Number Exact

def placeOf (total : Number) (c : Chunk) : Except Fault (Place × Number) := do
  let d ← div (.int c.length) c.speed
  let start ← total.trunc
  let dur ← d.trunc
  let source ← (← div (.int c.start) c.speed).trunc
  let sourceEnd ← (← div (.int c.stop) c.speed).trunc
  return (⟨start, start + dur, source, sourceEnd⟩, ← total.add d)

theorem places_cons (total : Number) (c : Chunk) (cs : List Chunk) :
    places total (c :: cs) = do
      let p ← placeOf total c
      return p.1 :: (← places p.2 cs) := by
  simp only [places, placeOf, bind_assoc, pure_bind]

variable {cs : List Chunk} {ps : List Place} {x : Float}

theorem length_places {total : Number} (h : places total cs = .ok ps) : ps.length = cs.length := by
  induction cs generalizing total ps with
  | nil =>
    cases h
    rfl
  | cons c cs ih =>
    simp only [places_cons, bind_eq_ok, pure_eq_ok, Prod.exists] at h
    obtain ⟨p, after, -, ps, hps, rfl⟩ := h
    rw [length_cons, length_cons, ih hps]

structure Place.Writable (p : Place) : Prop where
  start : isWritable p.start
  stop : isWritable p.stop
  source : isWritable p.source
  sourceEnd : isWritable p.sourceEnd

theorem placeOf_writable {c : Chunk} {p : Place} {after : Number} (hc : c.speed.Writable)
    (h : placeOf (.float x) c = .ok (p, after)) : p.Writable ∧ ∃ y, after = .float y := by
  simp only [placeOf, bind_eq_ok, pure_eq_ok, Prod.mk.injEq] at h
  obtain ⟨d, hd, start, hstart, dur, hdur, s, hs, source, hsource, e, he, sourceEnd, hend, total,
    htotal, rfl, rfl⟩ := h
  obtain ⟨y, rfl⟩ := exists_float_of_div hc hd
  obtain ⟨u, rfl⟩ := exists_float_of_div hc hs
  obtain ⟨v, rfl⟩ := exists_float_of_div hc he
  have hstart := abs_trunc_le hstart
  have hdur := abs_trunc_le hdur
  have hsource := abs_trunc_le hsource
  have hend := abs_trunc_le hend
  have hsum := abs_add_le start dur
  have hshort : ∀ {n : Int}, |n| ≤ |start| + |dur| ∨ |n| ≤ largest → isWritable n := by
    intro n hn
    have hpos := abs_nonneg start
    exact isWritable_of_abs_le (by omega)
  refine ⟨⟨hshort (.inr hstart), hshort (.inl hsum), hshort (.inr hsource), hshort (.inr hend)⟩, ?_⟩
  cases htotal
  exact ⟨_, rfl⟩

theorem places_writable (hcs : ∀ c ∈ cs, c.speed.Writable) (h : places (.float x) cs = .ok ps) :
    ∀ p ∈ ps, p.Writable := by
  induction cs generalizing x ps with
  | nil =>
    cases h
    simp
  | cons c cs ih =>
    obtain ⟨hc, hcs⟩ := forall_mem_cons.1 hcs
    simp only [places_cons, bind_eq_ok, pure_eq_ok, Prod.exists] at h
    obtain ⟨p, after, hp, ps, hps, rfl⟩ := h
    obtain ⟨hwritable, y, rfl⟩ := placeOf_writable hc hp
    exact forall_mem_cons.2 ⟨hwritable, ih hcs hps⟩

theorem places_zero (hcs : ∀ c ∈ cs, c.speed.Writable) :
    places (.int 0) cs = places (.float 0.0) cs := by
  cases cs with
  | nil => rfl
  | cons c cs =>
    have hplace : placeOf (.int 0) c = placeOf (.float 0.0) c := by
      have htrunc : trunc (.float 0.0) = trunc (.int 0) := by decide +kernel
      have hadd : ∀ y, add (.float 0.0) (.float y) = add (.int 0) (.float y) := by
        intro y
        have hzero : nearestFloat 0 = .ok 0.0 := by decide +kernel
        simp only [add, lift, toFloat, Int.cast_zero, hzero, ok_bind]
      rw [placeOf, placeOf, htrunc]
      cases hd : div (.int c.length) c.speed with
      | error e => rfl
      | ok d =>
        obtain ⟨y, rfl⟩ := exists_float_of_div (hcs c (.head _)) hd
        simp only [ok_bind, hadd]
    rw [places_cons, places_cons, hplace]

structure Place.Shows (p : Place) (n : Int) (c : Chunk) : Prop where
  start : p.start = n
  length : p.stop - p.start = c.length
  source : p.source = c.start

section

variable {c : Chunk} {x : Float} {n : Int}

theorem Place.Shows.unrounded {p : Place} {after : Number} (hp : p.Shows n c) (hc : c.Even)
    (hx : ofFloat? x = inRange? (nearest n)) (h : placeOf (.float x) c = .ok (p, after)) :
    c.Unrounded n ∧
      ∃ y, after = .float y ∧ ofFloat? y = inRange? (nearest (n + c.length : Int)) := by
  simp only [placeOf, bind_eq_ok, pure_eq_ok, Prod.mk.injEq] at h
  obtain ⟨d, hd, start, hstart, dur, hdur, s, hs, source, hsource, e, he, sourceEnd, -, total,
    htotal, rfl, rfl⟩ := h
  obtain ⟨-, y, rfl, hy⟩ := div_speed_one_eq_ok hc.writable hc.value hd
  obtain ⟨-, u, rfl, hu⟩ := div_speed_one_eq_ok hc.writable hc.value hs
  obtain ⟨hstop, -⟩ := div_speed_one_eq_ok hc.writable hc.value he
  have hlength : dur = c.length := by
    have := hp.length
    dsimp only at this
    omega
  have hn : isBinary n := (trunc_nearest hx).1 (hp.start ▸ hstart)
  have hlen : isBinary c.length := (trunc_nearest hy).1 (hlength ▸ hdur)
  have hsrc : isBinary c.start := (trunc_nearest hu).1 (hp.source ▸ hsource)
  refine ⟨⟨hn, hlen, hsrc, hstop⟩, x + y, ?_, ?_⟩
  · cases htotal
    rfl
  · rw [ofFloat?_add (ofFloat?_of_isBinary hx hn) (ofFloat?_of_isBinary hy hlen), Int.cast_add]

theorem placeOf_of_unrounded (h : c.Unrounded n) (hc : c.Even)
    (hx : ofFloat? x = inRange? (nearest n)) :
    ∃ p y, placeOf (.float x) c = .ok (p, .float y) ∧ p.Shows n c ∧
      ofFloat? y = inRange? (nearest (n + c.length : Int)) := by
  have hround : ∀ {m : Int}, (toFloat? m).isSome →
      ∃ u, div (.int m) c.speed = .ok (.float u) ∧ ofFloat? u = inRange? (nearest m) := by
    intro m hm
    obtain ⟨u, hdiv, hu⟩ := div_speed_one_ok hc.writable hc.value hm
    exact ⟨u, hdiv, by rw [hu, inRange?, if_pos (isSome_toFloat?_iff.1 hm)]⟩
  obtain ⟨y, hlength, hy⟩ := hround (isBinary_iff.1 h.length).1
  obtain ⟨u, hstart, hu⟩ := hround (isBinary_iff.1 h.start).1
  obtain ⟨v, hstop, hv⟩ := hround h.stop
  have hend : trunc (.float v) = .ok (trunc (nearest c.stop)) := by
    rw [trunc_float, hv, inRange?, if_pos (isSome_toFloat?_iff.1 h.stop)]
    exact ⟨_, rfl, rfl⟩
  refine ⟨⟨n, n + c.length, c.start, trunc (nearest c.stop)⟩, x + y, ?_, ⟨rfl, ?_, rfl⟩, ?_⟩
  · rw [placeOf]
    simp only [hlength, hstart, hstop, hend, (trunc_nearest hx).2 h.before,
      (trunc_nearest hy).2 h.length, (trunc_nearest hu).2 h.start, ok_bind]
    rfl
  · dsimp only
    omega
  · rw [ofFloat?_add (ofFloat?_of_isBinary hx h.before) (ofFloat?_of_isBinary hy h.length),
      Int.cast_add]

end

theorem exists_places_iff (hcs : ∀ c ∈ cs, c.Even ∧ ¬ c.isCut) {n : Int}
    (hx : ofFloat? x = inRange? (nearest n)) :
    (∃ ps, places (.float x) cs = .ok ps ∧
      List.Forall₂ (fun p nc => p.Shows nc.1 nc.2) ps (Chunk.laid n cs)) ↔
    ∀ nc ∈ Chunk.laid n cs, nc.2.Unrounded nc.1 := by
  induction cs generalizing n x with
  | nil => simp [places, Chunk.laid]
  | cons c cs ih =>
    obtain ⟨hc, hcs⟩ := forall_mem_cons.1 hcs
    rw [Chunk.laid, if_neg hc.2, forall_mem_cons]
    constructor
    · rintro ⟨ps, hps, hshows⟩
      simp only [places_cons, bind_eq_ok, pure_eq_ok, Prod.exists] at hps
      obtain ⟨p, after, hp, ps, hps, rfl⟩ := hps
      obtain ⟨hshow, hshows⟩ := forall₂_cons.1 hshows
      obtain ⟨hunrounded, y, rfl, hy⟩ := hshow.unrounded hc.1 hx hp
      exact ⟨hunrounded, (ih hcs hy).1 ⟨ps, hps, hshows⟩⟩
    · rintro ⟨hunrounded, hrest⟩
      obtain ⟨p, y, hp, hshow, hy⟩ := placeOf_of_unrounded hunrounded hc.1 hx
      obtain ⟨ps, hps, hshows⟩ := (ih hcs hy).2 hrest
      refine ⟨p :: ps, ?_, .cons hshow hshows⟩
      rw [places_cons, hp, ok_bind, hps, ok_bind]
      rfl

end Premiere

/-! ### Places at any speed -/

namespace Number

open Exact

structure IsQuotient (n : Int) (s x : Number) : Prop where
  div_eq : div (.int n) s = .ok x
  value : x.toRat? = some (n / s.toRat?.getD 0)

structure IsSum (x y z : Number) : Prop where
  add_eq : add x y = .ok z
  value : ∃ a b, x.toRat? = some a ∧ y.toRat? = some b ∧ z.toRat? = some (a + b)

theorem IsSum.toRat?_eq {x y z : Number} {a b : Rat} (h : IsSum x y z) (hx : x.toRat? = some a)
    (hy : y.toRat? = some b) : z.toRat? = some (a + b) := by
  obtain ⟨a', b', ha, hb, hz⟩ := h.value
  rw [hx, Option.some_inj] at ha
  rw [hy, Option.some_inj] at hb
  rw [hz, ha, hb]

variable {q : Rat}

theorem trunc_of_toRat? {x : Number} (h : x.toRat? = some q) (hq : 0 ≤ q) : x.trunc = .ok ⌊q⌋ := by
  rw [← trunc_eq_floor hq]
  cases x with
  | int n =>
    cases h
    rw [trunc_intCast]
    rfl
  | frac r =>
    cases h
    rfl
  | float y => exact trunc_float.2 ⟨q, h, rfl⟩
  | complex re im => cases h

theorem exists_monotone_div {s : Number} (hs : s.Writable) (hq : s.toRat? = some q) (hpos : 0 < q) :
    ∃ g : Int → Rat, Monotone g ∧ g 0 = 0 ∧ ∀ n x, div (.int n) s = .ok x →
      ∃ y, x = .float y ∧ ∀ r, ofFloat? y = some r → r = g n := by
  have hdivide {m n : Rat} (h : m ≤ n) : m / q ≤ n / q := div_le_div_of_nonneg_right h hpos.le
  obtain ⟨m, rfl⟩ | ⟨y, rfl⟩ := writable_iff.1 hs
  · obtain rfl := Option.some_inj.1 hq
    refine ⟨fun n => nearest (n / m), fun a b hab => nearest_mono (hdivide (Int.cast_le.2 hab)), ?_,
      fun n x hx => ?_⟩
    · simp
    · rw [div] at hx
      split at hx
      · cases hx
      · simp only [bind_eq_ok, pure_eq_ok] at hx
        obtain ⟨y, hy, rfl⟩ := hx
        refine ⟨y, rfl, fun r hr => ?_⟩
        exact Option.some_inj.1 (hr.symm.trans (ofFloat?_of_nearestFloat hy))
  · refine ⟨fun n => nearest (nearest n / q), fun a b hab => ?_, ?_, fun n x hx => ?_⟩
    · exact nearest_mono (hdivide (nearest_mono (Int.cast_le.2 hab)))
    · simp
    · simp only [div, toFloat, bind_eq_ok] at hx
      obtain ⟨a, ha, b, hb, hx⟩ := hx
      cases hb
      split at hx
      · cases hx
      · cases hx
        refine ⟨a / y, rfl, fun r hr => ?_⟩
        rw [ofFloat?_div (ofFloat?_of_nearestFloat ha) hq hpos.ne'] at hr
        exact eq_of_inRange? hr

theorem exists_float_of_isBinary (h : isBinary q) :
    ∃ x, nearestFloat q = .ok x ∧ ofFloat? x = some q := by
  obtain ⟨hsome, hself⟩ := isBinary_iff.1 h
  obtain ⟨x, hx⟩ := Option.isSome_iff_exists.1 hsome
  exact ⟨x, by rw [nearestFloat, hx], by rw [ofFloat?_of_toFloat? hx, hself]⟩

theorem exists_isQuotient {n : Int} {s : Number} (hs : s.Writable) (hq : s.toRat? = some q)
    (hne : q ≠ 0) (hn : isBinary n) (hquotient : isBinary (n / q)) :
    ∃ x, IsQuotient n s (.float x) := by
  obtain ⟨m, rfl⟩ | ⟨y, rfl⟩ := writable_iff.1 hs
  · obtain rfl := Option.some_inj.1 hq
    obtain ⟨x, hx, hvalue⟩ := exists_float_of_isBinary hquotient
    refine ⟨x, ?_, hvalue⟩
    rw [div, if_neg (Int.cast_ne_zero.1 hne), hx]
    rfl
  · obtain ⟨a, ha, hvalue⟩ := exists_float_of_isBinary hn
    refine ⟨a / y, ?_, ?_⟩
    · simp only [div, toFloat, ha, ok_bind, beq_zero_of_ne hq hne, Bool.false_eq_true, if_false]
      rfl
    · rw [toRat?, ofFloat?_div hvalue hq hne, inRange?_of_isBinary hquotient, hq, Option.getD_some]

theorem exists_isSum {total : Number} {t b : Rat} {y : Float} (htotal : total.Writable)
    (ht : total.toRat? = some t) (hbinary : isBinary t) (hy : ofFloat? y = some b)
    (hsum : isBinary (t + b)) : ∃ z, IsSum total (.float y) (.float z) := by
  obtain ⟨n, rfl⟩ | ⟨x, rfl⟩ := writable_iff.1 htotal
  · obtain rfl := Option.some_inj.1 ht
    obtain ⟨a, ha, hvalue⟩ := exists_float_of_isBinary hbinary
    refine ⟨a + y, ?_, _, _, ht, hy, ?_⟩
    · simp only [add, lift, toFloat, ha, ok_bind]
      rfl
    · rw [toRat?, ofFloat?_add hvalue hy, inRange?_of_isBinary hsum]
  · refine ⟨x + y, rfl, _, _, ht, hy, ?_⟩
    rw [toRat?, ofFloat?_add ht hy, inRange?_of_isBinary hsum]

end Number

namespace Chunk

structure Lasts (c : Chunk) : Prop where
  start : 0 ≤ c.start
  stop : c.start < c.stop
  pace : c.HasPace

theorem Lasts.span_nonneg {c : Chunk} (h : c.Lasts) : 0 ≤ c.span := h.pace.span_nonneg h.stop

theorem Lasts.source_nonneg {c : Chunk} (h : c.Lasts) :
    0 ≤ (c.start : Rat) / c.speed.toRat?.getD 0 := by
  obtain ⟨q, hq, hpos⟩ := h.pace
  rw [hq]
  exact div_nonneg (Int.cast_nonneg h.start) hpos.le

theorem Lasts.source_le {c : Chunk} (h : c.Lasts) :
    (c.start : Rat) / c.speed.toRat?.getD 0 ≤ c.stop / c.speed.toRat?.getD 0 := by
  obtain ⟨q, hq, hpos⟩ := h.pace
  rw [hq]
  exact div_le_div_of_nonneg_right (Int.cast_le.2 h.stop.le) hpos.le

end Chunk

namespace Premiere

open Number Exact

inductive Exactly : Number → List Chunk → Prop
  | nil (total : Number) : Exactly total []
  | cons {total after d s e : Number} {c : Chunk} {cs : List Chunk}
      (length : IsQuotient c.length c.speed d) (start : IsQuotient c.start c.speed s)
      (stop : IsQuotient c.stop c.speed e) (sum : IsSum total d after) (rest : Exactly after cs) :
      Exactly total (c :: cs)

variable {cs : List Chunk} {total : Number} {ps : List Place}

theorem exactly_of_frac (hcs : ∀ c ∈ cs, ∃ q, c.speed = .frac q ∧ q ≠ 0)
    (htotal : (∃ n, total = .int n) ∨ ∃ t, total = .frac t) : Exactly total cs := by
  induction cs generalizing total with
  | nil => exact .nil total
  | cons c cs ih =>
    obtain ⟨⟨q, hspeed, hq⟩, hcs⟩ := forall_mem_cons.1 hcs
    have hquotient (n : Int) : IsQuotient n c.speed (.frac (n / q)) := by
      rw [hspeed]
      exact ⟨if_neg hq, rfl⟩
    obtain ⟨t, hsum⟩ : ∃ t, IsSum total (.frac (c.length / q)) (.frac t) := by
      rcases htotal with ⟨n, rfl⟩ | ⟨t, rfl⟩
      · exact ⟨_, rfl, _, _, rfl, rfl, rfl⟩
      · exact ⟨_, rfl, _, _, rfl, rfl, rfl⟩
    exact .cons (hquotient _) (hquotient _) (hquotient _) hsum (ih hcs (.inr ⟨t, rfl⟩))

def isBinaryFrom (t : Rat) : List Chunk → Bool
  | [] => true
  | c :: cs => [c.length, c.start, c.stop].all (fun n =>
      isBinary n && isBinary (n / c.speed.toRat?.getD 0)) &&
    isBinary (t + c.span) && isBinaryFrom (t + c.span) cs

theorem exactly_of_isBinaryFrom {t : Rat} (h : isBinaryFrom t cs) (hpace : ∀ c ∈ cs, c.HasPace)
    (hspeeds : ∀ c ∈ cs, c.speed.Writable) (hwritable : total.Writable)
    (htotal : total.toRat? = some t) (ht : isBinary t) : Exactly total cs := by
  induction cs generalizing t total with
  | nil => exact .nil total
  | cons c cs ih =>
    obtain ⟨hc, hpace⟩ := forall_mem_cons.1 hpace
    obtain ⟨hspeed, hspeeds⟩ := forall_mem_cons.1 hspeeds
    simp only [isBinaryFrom, all_cons, all_nil, Bool.and_true, Bool.and_eq_true] at h
    obtain ⟨⟨⟨⟨hl, hlq⟩, ⟨hs, hsq⟩, he, heq⟩, hsum⟩, hrest⟩ := h
    obtain ⟨q, hq, hpos⟩ := hc
    rw [Chunk.span, hq, Option.getD_some] at hsum hrest
    rw [hq, Option.getD_some] at hlq hsq heq
    obtain ⟨d, hd⟩ := exists_isQuotient hspeed hq hpos.ne' hl hlq
    obtain ⟨s, hs⟩ := exists_isQuotient hspeed hq hpos.ne' hs hsq
    obtain ⟨e, he⟩ := exists_isQuotient hspeed hq hpos.ne' he heq
    have hlength : ofFloat? d = some (c.length / q) := by
      have := hd.value
      rwa [hq, Option.getD_some] at this
    obtain ⟨u, hu⟩ := exists_isSum hwritable htotal ht hlength hsum
    exact .cons hd hs he hu (ih hrest hpace hspeeds ⟨_, rfl⟩ (hu.toRat?_eq htotal hlength) hsum)

def placeAt (t : Rat) (c : Chunk) : Place :=
  ⟨⌊t⌋, ⌊t⌋ + ⌊c.span⌋, ⌊c.start / c.speed.toRat?.getD 0⌋, ⌊c.stop / c.speed.toRat?.getD 0⌋⟩

def placesAt (t : Rat) : List Chunk → List Place
  | [] => []
  | c :: cs => placeAt t c :: placesAt (t + c.span) cs

theorem places_of_exactly (h : Exactly total cs) {t : Rat} (ht : total.toRat? = some t)
    (hpos : 0 ≤ t) (hcs : ∀ c ∈ cs, c.Lasts) : places total cs = .ok (placesAt t cs) := by
  induction h generalizing t with
  | nil => rfl
  | @cons total after d s e c cs hlength hstart hstop hsum _ ih =>
    obtain ⟨hc, hcs⟩ := forall_mem_cons.1 hcs
    have hafter : after.toRat? = some (t + c.span) := hsum.toRat?_eq ht hlength.value
    have hplace : placeOf total c = .ok (placeAt t c, after) := by
      simp only [placeOf, hlength.div_eq, hstart.div_eq, hstop.div_eq, hsum.add_eq, ok_bind,
        trunc_of_toRat? ht hpos, trunc_of_toRat? hlength.value hc.span_nonneg,
        trunc_of_toRat? hstart.value hc.source_nonneg,
        trunc_of_toRat? hstop.value (hc.source_nonneg.trans hc.source_le)]
      rfl
    rw [places_cons, hplace, ok_bind, ih hafter (add_nonneg hpos hc.span_nonneg) hcs]
    rfl

structure Place.Forward (p : Place) : Prop where
  start_le : p.start ≤ p.stop
  source_le : p.source ≤ p.sourceEnd

theorem forward_placesAt (hcs : ∀ c ∈ cs, c.Lasts) (t : Rat) : ∀ p ∈ placesAt t cs, p.Forward := by
  induction cs generalizing t with
  | nil => simp [placesAt]
  | cons c cs ih =>
    obtain ⟨hc, hcs⟩ := forall_mem_cons.1 hcs
    rw [placesAt, forall_mem_cons]
    refine ⟨⟨?_, Int.floor_le_floor hc.source_le⟩, ih hcs _⟩
    exact Int.le_add_of_nonneg_right (Int.floor_nonneg.2 hc.span_nonneg)

theorem isChain_placesAt (cs : List Chunk) (t : Rat) :
    (placesAt t cs).IsChain fun p r => p.stop ≤ r.start := by
  induction cs generalizing t with
  | nil => exact .nil
  | cons c cs ih =>
    have hrest := ih (t + c.span)
    cases cs with
    | nil => exact .singleton _
    | cons d cs => exact .cons_cons (Int.le_floor_add t c.span) hrest

theorem getElem?_placesAt (t : Rat) (cs : List Chunk) (j : Nat) :
    (placesAt t cs)[j]? = cs[j]?.map (placeAt (t + ((cs.take j).map Chunk.span).sum)) := by
  induction cs generalizing t j with
  | nil => simp [placesAt]
  | cons c cs ih =>
    cases j with
    | zero => simp [placesAt]
    | succ j => simp [placesAt, ih, add_assoc]

theorem length_placesAt (t : Rat) (cs : List Chunk) : (placesAt t cs).length = cs.length := by
  induction cs generalizing t with
  | nil => rfl
  | cons c cs ih => rw [placesAt, length_cons, length_cons, ih]

theorem start_of_places {p : Place} (h : places total cs = .ok (p :: ps)) :
    total.trunc = .ok p.start := by
  cases cs with
  | nil => cases h
  | cons c cs =>
    simp only [places, bind_eq_ok, pure_eq_ok, List.cons.injEq] at h
    obtain ⟨d, -, start, hstart, dur, -, s, -, source, -, e, -, sourceEnd, -, after, -, ps', -,
      rfl, -⟩ := h
    exact hstart

theorem placeOf_float {x : Float} {c : Chunk} {p : Place} {after : Number} (hc : c.Lasts)
    (hs : c.speed.Writable) (hx : ∀ t, ofFloat? x = some t → 0 ≤ t)
    (h : placeOf (.float x) c = .ok (p, after)) : p.Forward ∧ ∃ y, after = .float y ∧
      ∀ u, ofFloat? y = some u → 0 ≤ u ∧ (p.stop < 2 ^ 53 → p.stop ≤ ⌊u⌋) := by
  simp only [placeOf, bind_eq_ok, pure_eq_ok, Prod.mk.injEq] at h
  obtain ⟨d, hd, start, hstart, dur, hdur, s, hsource, source, htrunc, e, hend, sourceEnd, htrunc',
    total, htotal, rfl, rfl⟩ := h
  obtain ⟨q, hq, hpos⟩ := hc.pace
  obtain ⟨g, hmono, hzero, hg⟩ := exists_monotone_div hs hq hpos
  obtain ⟨t, ht, rfl⟩ := trunc_float.1 hstart
  have htrunc_g {n k : Int} {y : Number} (hy : div (.int n) c.speed = .ok y)
      (hk : y.trunc = .ok k) : k = trunc (g n) := by
    obtain ⟨z, rfl, hz⟩ := hg n y hy
    obtain ⟨r, hr, rfl⟩ := trunc_float.1 hk
    rw [hz r hr]
  have hnonneg {n : Int} (hn : 0 ≤ n) : 0 ≤ g n := hzero ▸ hmono hn
  have hlength : 0 ≤ c.length := (Int.sub_pos_of_lt hc.stop).le
  obtain ⟨z, rfl, hz⟩ := hg _ _ hd
  obtain ⟨r, hr, rfl⟩ := trunc_float.1 hdur
  have hr0 : 0 ≤ r := hz r hr ▸ hnonneg hlength
  have ht0 := hx t ht
  refine ⟨⟨Int.le_add_of_nonneg_right (trunc_nonneg hr0), ?_⟩, x + z, ?_, fun u hu => ?_⟩
  · dsimp only
    rw [htrunc_g hsource htrunc, htrunc_g hend htrunc', trunc_eq_floor (hnonneg hc.start),
      trunc_eq_floor (hnonneg (hc.start.trans hc.stop.le))]
    exact Int.floor_le_floor (hmono hc.stop.le)
  · cases htotal
    rfl
  · rw [ofFloat?_add ht hr] at hu
    rw [eq_of_inRange? hu]
    have hstop : 0 ≤ trunc t + trunc r :=
      add_nonneg (trunc_nonneg ht0) (trunc_nonneg hr0)
    refine ⟨nearest_nonneg (add_nonneg ht0 hr0), fun hlt => ?_⟩
    rw [Int.le_floor]
    refine le_nearest_of_le (onGrid_intCast (by rwa [abs_of_nonneg hstop])) ?_
    rw [Int.cast_add]
    exact add_le_add (trunc_le ht0) (trunc_le hr0)

theorem places_float (hcs : ∀ c ∈ cs, c.Lasts) (hs : ∀ c ∈ cs, c.speed.Writable) {x : Float}
    (hx : ∀ t, ofFloat? x = some t → 0 ≤ t) (h : places (.float x) cs = .ok ps) :
    (∀ p ∈ ps, p.Forward) ∧
      ps.IsChain fun p r => p.stop < 2 ^ 53 → p.stop ≤ r.start := by
  induction cs generalizing x ps with
  | nil =>
    cases h
    exact ⟨by simp, .nil⟩
  | cons c cs ih =>
    obtain ⟨hc, hcs⟩ := forall_mem_cons.1 hcs
    obtain ⟨hspeed, hs⟩ := forall_mem_cons.1 hs
    simp only [places_cons, bind_eq_ok, pure_eq_ok, Prod.exists] at h
    obtain ⟨p, after, hp, ps, hps, rfl⟩ := h
    obtain ⟨hforward, y, rfl, hy⟩ := placeOf_float hc hspeed hx hp
    obtain ⟨hrest, hchain⟩ := ih hcs hs (fun u hu => (hy u hu).1) hps
    refine ⟨forall_mem_cons.2 ⟨hforward, hrest⟩, ?_⟩
    cases ps with
    | nil => exact .singleton _
    | cons r ps =>
      refine .cons_cons (fun hlt => ?_) hchain
      obtain ⟨u, hu, hstart⟩ := trunc_float.1 (start_of_places hps)
      rw [← hstart, trunc_eq_floor (hy u hu).1]
      exact (hy u hu).2 hlt

end Premiere

end Jumpcut
