import Jumpcut.Exchange.Json
import Jumpcut.Proofs.ArithmeticLaws
import Jumpcut.Proofs.ChunkLaws

/-!
Which chunks are accepted when they are written to a document and read again, and which of those
that a user has written with numbers of any kind. Lengths between numbers that are not whole are
computed in binary64, so that some chunks are refused although nothing is wrong with them.
-/
namespace Jumpcut

open Outcome Number WrittenChunk List Chunk

namespace Json

theorem ofWritable_eq_ok {x : Number} {j : Json} (h : ofWritable x = .ok j) :
    j.number? = some x := by
  cases x with
  | int n =>
    cases h
    rfl
  | float y =>
    cases h
    rfl
  | frac q => cases h
  | complex re im => cases h

theorem ofChunk_eq_ok {c : Chunk} {j : Json} :
    ofChunk c = .ok j ↔
      ∃ s, ofWritable c.speed = .ok s ∧ j = .arr [.int c.start, .int c.stop, s] := by
  simp only [ofChunk, bind_eq_ok, pure_eq_ok]
  exact exists_congr fun s => and_congr_right fun _ => eq_comm

end Json

def Number.Writable (x : Number) : Prop := ∃ j, Json.ofWritable x = .ok j

def Number.WithinLimits (x : Number) : Prop := ¬ x.le 0 ∧ ¬ lt 99999 x

def Number.IsSpeed (x : Number) : Prop := ∃ q, x.toRat? = some q ∧ 0 < q ∧ q ≤ 99999

theorem Number.withinLimits_iff {x : Number} {q : Rat} (h : x.toRat? = some q) :
    x.WithinLimits ↔ 0 < q ∧ q ≤ 99999 := by
  rw [WithinLimits, le_iff_of_toRat? h (toRat?_ofNat 0), lt_iff_of_toRat? (toRat?_ofNat 99999) h,
    not_le, not_lt]
  norm_num

namespace WrittenChunk

structure Reads (c : Chunk) (w : WrittenChunk) : Prop where
  start_eq : w.start = .int c.start
  stop_eq : w.stop = .int c.stop
  speed_eq : c.speed.toFloat = .ok w.speed

theorem complain_bind {α β : Type} (m : String) (f : α → Except Fault β) :
    complain m >>= f = .error (.complaint m) := rfl

theorem ite_error_eq_ok {α : Type} {p : Prop} [Decidable p] {e : Fault} {x : Except Fault α}
    {a : α} : (if p then .error e else x) = .ok a ↔ ¬ p ∧ x = .ok a := by
  split <;> simp_all

theorem check_triple {a b s : Json} {x y z : Number} (ha : a.number? = some x)
    (hb : b.number? = some y) (hs : s.number? = some z) (last : Option Number) :
    check last (.arr [a, b, s]) =
      if last.isNone && !x.eqv 0 then .error (.complaint "First chunk must start with 0") else
      y.sub x >>= fun d =>
      if d.lt 1 then .error (.complaint "Chunk duration must be at least 1") else
      if z.le 0 || lt 99999 z then
        .error (.complaint "Chunk speed range must be >0 and <=99999") else
      if last.any (!x.eqv ·) then .error (unjoined (.arr [a, b, s]) a b) else
      z.toFloat >>= fun f => .ok ⟨a, b, f⟩ := by
  have hx : number a = .ok x := by rw [number, ha]
  have hy : number b = .ok y := by rw [number, hb]
  have hz : number s = .ok z := by rw [number, hs]
  have hsize : size (.arr [a, b, s]) = .ok 3 := rfl
  have hparts : part (.arr [a, b, s]) 0 = .ok a ∧ part (.arr [a, b, s]) 1 = .ok b ∧
      part (.arr [a, b, s]) 2 = .ok s := ⟨rfl, rfl, rfl⟩
  cases last with
  | none =>
    simp only [check, hsize, hparts, ok_bind, hx, hy, hz, ha, ne_eq, not_true, if_false, pure_bind,
      complain_bind, Option.map_some]
    cases x.eqv 0 <;> rfl
  | some e =>
    simp only [check, hsize, hparts, ok_bind, hx, hy, hz, ne_eq, not_true, if_false, pure_bind,
      complain_bind]
    rfl

theorem eqv_int (a b : Int) : (int a).eqv (.int b) = true ↔ a = b := by
  rw [eqv_iff_of_toRat? rfl rfl, Int.cast_inj]

theorem lt_one_int (n : Int) : (int n).lt 1 = true ↔ n < 1 := by
  rw [lt_iff_of_toRat? rfl (toRat?_ofNat 1), Nat.cast_one]
  exact_mod_cast Iff.rfl

theorem check_ofChunk {last : Option Int} {c : Chunk} {j : Json} (hj : Json.ofChunk c = .ok j)
    {w : WrittenChunk} :
    check (last.map .int) j = .ok w ↔
      c.start = last.getD 0 ∧ c.start < c.stop ∧ c.speed.WithinLimits ∧ Reads c w := by
  obtain ⟨s, hs, rfl⟩ := Json.ofChunk_eq_ok.1 hj
  have hsub : sub (.int c.stop) (.int c.start) = .ok (.int (c.stop - c.start)) := rfl
  have hlength : ¬ c.stop - c.start < 1 ↔ c.start < c.stop := by omega
  have hlimits : ¬ (c.speed.le 0 || lt 99999 c.speed) = true ↔ c.speed.WithinLimits := by
    rw [Bool.or_eq_true, not_or]
    rfl
  have hreads : (c.speed.toFloat >>= fun x => .ok ⟨.int c.start, .int c.stop, x⟩) = .ok w ↔
      Reads c w := by
    obtain ⟨start, stop, speed⟩ := w
    simp only [bind_eq_ok, Except.ok.injEq, mk.injEq]
    constructor
    · rintro ⟨x, hx, rfl, rfl, rfl⟩
      exact ⟨rfl, rfl, hx⟩
    · rintro ⟨rfl, rfl, hx⟩
      exact ⟨speed, hx, rfl, rfl, rfl⟩
  rw [check_triple rfl rfl (Json.ofWritable_eq_ok hs), ite_error_eq_ok, hsub, ok_bind,
    ite_error_eq_ok, ite_error_eq_ok, ite_error_eq_ok, hreads, hlimits, lt_one_int, hlength]
  cases last with
  | none =>
    rw [show (0 : Number) = .int 0 from rfl]
    simp [eqv_int]
  | some e =>
    simp [eqv_int]
    tauto

theorem checkAll_ofChunks {last : Option Int} {cs : List Chunk} {js : List Json}
    (hjs : Forall₂ (fun c j => Json.ofChunk c = .ok j) cs js) {ws : List WrittenChunk} :
    checkAll (last.map .int) js = .ok ws ↔
      (∃ n, Tiles (last.getD 0) n cs) ∧ (∀ c ∈ cs, c.speed.WithinLimits) ∧
        Forall₂ Reads cs ws := by
  induction hjs generalizing last ws with
  | nil => simp [checkAll, Tiles, eq_comm]
  | @cons c j cs js hj _ ih =>
    simp only [checkAll, bind_eq_ok, pure_eq_ok, check_ofChunk hj, forall_mem_cons,
      forall₂_cons_left_iff, Tiles]
    have htail (w : WrittenChunk) (hw : Reads c w) :
        w.stop.number? = (some c.stop).map .int := by
      rw [hw.stop_eq]
      rfl
    constructor
    · rintro ⟨w, ⟨hstart, hlt, hlim, hw⟩, ws', hall, rfl⟩
      rw [htail w hw, ih] at hall
      obtain ⟨⟨n, htiles⟩, hlims, hreads⟩ := hall
      exact ⟨⟨n, hstart, hlt, htiles⟩, ⟨hlim, hlims⟩, w, ws', hw, hreads, rfl⟩
    · rintro ⟨⟨n, hstart, hlt, htiles⟩, ⟨hlim, hlims⟩, w, ws', hw, hreads, rfl⟩
      refine ⟨w, ⟨hstart, hlt, hlim, hw⟩, ws', ?_, rfl⟩
      rw [htail w hw, ih]
      exact ⟨⟨n, htiles⟩, hlims, hreads⟩

theorem validate_ofChunks {cs : List Chunk} {js : List Json} (hjs : cs.mapM Json.ofChunk = .ok js)
    {ws : List WrittenChunk} :
    validate (.arr js) = .ok ws ↔
      cs ≠ [] ∧ (∃ n, Tiles 0 n cs) ∧ (∀ c ∈ cs, c.speed.WithinLimits) ∧
        Forall₂ Reads cs ws := by
  have hall := mapM_eq_ok.1 hjs
  cases hall with
  | nil =>
    simp only [validate, complain]
    simp
  | cons hj htail =>
    have hcheck := @checkAll_ofChunks none _ _ (.cons hj htail) ws
    simpa [validate] using hcheck

end WrittenChunk

namespace Chunk

def Accepted (cs : List Chunk) : Prop :=
  ∃ js ws, cs.mapM Json.ofChunk = .ok js ∧ validate (.arr js) = .ok ws

variable {cs : List Chunk}

theorem Accepted.withinLimits (h : Accepted cs) : ∀ c ∈ cs, c.speed.WithinLimits := by
  obtain ⟨js, ws, hjs, hws⟩ := h
  exact ((validate_ofChunks hjs).1 hws).2.2.1

theorem Accepted.writable (h : Accepted cs) : ∀ c ∈ cs, c.speed.Writable := by
  intro c hc
  obtain ⟨js, -, hjs, -⟩ := h
  obtain ⟨j, hj⟩ := mapM_ok_iff.1 ⟨js, hjs⟩ c hc
  obtain ⟨s, hs, -⟩ := Json.ofChunk_eq_ok.1 hj
  exact ⟨s, hs⟩

structure HasLimits (c : Chunk) : Prop where
  writable : c.speed.Writable
  isSpeed : c.speed.IsSpeed

theorem HasLimits.reads {c : Chunk} (h : c.HasLimits) : ∃ w, Reads c w := by
  obtain ⟨q, hq, hlo, hhi⟩ := h.isSpeed
  obtain ⟨x, hx, -⟩ := toFloat_ok hq (Exact.le_largest (by rw [abs_of_pos hlo]; linarith))
  exact ⟨⟨.int c.start, .int c.stop, x⟩, rfl, rfl, hx⟩

theorem Tiles.accepted {n : Int} (h : Tiles 0 n cs) (hne : cs ≠ []) (hlim : ∀ c ∈ cs, c.HasLimits) :
    Accepted cs := by
  obtain ⟨js, hjs⟩ : ∃ js, cs.mapM Json.ofChunk = .ok js := by
    apply mapM_ok_iff.2
    intro c hc
    obtain ⟨s, hs⟩ := (hlim c hc).writable
    exact ⟨_, Json.ofChunk_eq_ok.2 ⟨s, hs, rfl⟩⟩
  obtain ⟨ws, hws⟩ := exists_forall₂ fun c hc => (hlim c hc).reads
  refine ⟨js, ws, hjs, (validate_ofChunks hjs).2 ⟨hne, ⟨n, h⟩, ?_, hws⟩⟩
  intro c hc
  obtain ⟨q, hq, hq'⟩ := (hlim c hc).isSpeed
  exact (withinLimits_iff hq).2 hq'

end Chunk

structure Quantity where
  written : Json
  number : Number
  value : Rat
  number_eq : written.number? = some number
  value_eq : number.toRat? = some value

namespace Quantity

open Exact

def int (n : Int) : Quantity := ⟨.int n, .int n, n, rfl, rfl⟩

def isWhole (q : Quantity) : Bool :=
  match q.number with
  | .int _ => true
  | _ => false

def nearest? (q : Quantity) : Option Rat := inRange? (nearest q.value)

/-- The length between two numbers as it is computed: between integers exactly, otherwise by way of
binary64. -/
def length? (p q : Quantity) : Option Rat :=
  if p.isWhole && q.isWhole then some (q.value - p.value)
  else p.nearest?.bind fun u => q.nearest?.map fun v => nearest (v - u)

variable {p q : Quantity}

theorem cases (q : Quantity) : (∃ n : Int, q.number = .int n ∧ q.value = n) ∨
    ∃ x, q.number = .float x ∧ ofFloat? x = some q.value := by
  obtain ⟨j, x, v, hx, hv⟩ := q
  dsimp only
  cases j with
  | int n =>
    cases hx
    cases hv
    exact .inl ⟨n, rfl, rfl⟩
  | bool b =>
    cases hx
    cases hv
    exact .inl ⟨_, rfl, rfl⟩
  | float x =>
    cases hx
    exact .inr ⟨x, rfl, hv⟩
  | null | str _ | arr _ | obj _ => cases hx

theorem toFloat_eq (q : Quantity) :
    (∃ v x, q.nearest? = some v ∧ q.number.toFloat = .ok x ∧ ofFloat? x = some v) ∨
      q.nearest? = none ∧ q.number.toFloat = .error .tooLarge := by
  rcases q.cases with ⟨n, hn, hvalue⟩ | ⟨x, hx, hvalue⟩
  · have hspec := toFloat?_spec (n : Rat)
    rw [nearest?, hvalue, hn]
    change (∃ v x, _ ∧ nearestFloat n = .ok x ∧ _) ∨ _ ∧ nearestFloat n = _
    rw [nearestFloat]
    cases hfloat : toFloat? (n : Rat) with
    | none =>
      rw [hfloat] at hspec
      exact .inr ⟨by simpa using hspec.symm, rfl⟩
    | some x =>
      rw [hfloat] at hspec
      obtain ⟨v, hv, heq⟩ := Option.map_eq_some_iff.1 hspec.symm
      exact .inl ⟨v, x, hv, rfl, heq.symm⟩
  · refine .inl ⟨q.value, x, ?_, by rw [hx]; rfl, hvalue⟩
    rw [nearest?, nearest_eq_self (onGrid_of_ofFloat? hvalue),
      inRange?_of_le (abs_le_largest hvalue)]

theorem sub_eq (p q : Quantity) :
    (∃ d z, length? p q = some d ∧ q.number.sub p.number = .ok z ∧ (z.lt 1 = true ↔ d < 1)) ∨
      length? p q = none ∧ q.number.sub p.number = .error .tooLarge := by
  by_cases hwhole : p.isWhole && q.isWhole
  · obtain ⟨hp, hq⟩ := Bool.and_eq_true_iff.1 hwhole
    rcases p.cases with ⟨m, hm, hpvalue⟩ | ⟨x, hx, -⟩
    · rcases q.cases with ⟨n, hn, hqvalue⟩ | ⟨y, hy, -⟩
      · refine .inl ⟨_, .int (n - m), if_pos hwhole, by rw [hm, hn]; rfl, ?_⟩
        rw [lt_one_int, hpvalue, hqvalue]
        exact_mod_cast Iff.rfl
      · rw [isWhole, hy] at hq
        cases hq
    · rw [isWhole, hx] at hp
      cases hp
  · have hsub : q.number.sub p.number = (q.number.toFloat >>= fun u =>
        p.number.toFloat >>= fun v => pure (.float (u - v))) := by
      rcases p.cases with ⟨m, hp, -⟩ | ⟨x, hp, -⟩ <;> rcases q.cases with ⟨n, hq, -⟩ | ⟨y, hq, -⟩
      · rw [isWhole, isWhole, hp, hq] at hwhole
        exact absurd rfl hwhole
      all_goals
        rw [hp, hq]
        rfl
    rw [length?, if_neg hwhole, hsub]
    rcases q.toFloat_eq with ⟨v, y, hv, hy, hvalue⟩ | ⟨hnone, herror⟩
    · rcases p.toFloat_eq with ⟨u, x, hu, hx, hvalue'⟩ | ⟨hnone, herror⟩
      · refine .inl ⟨nearest (v - u), .float (y - x), ?_, ?_, lt_one_sub hvalue hvalue'⟩
        · rw [hu, hv]
          rfl
        · rw [hy, hx]
          rfl
      · refine .inr ⟨by rw [hnone]; rfl, ?_⟩
        rw [hy, herror]
        rfl
    · refine .inr ⟨?_, by rw [herror]; rfl⟩
      rw [hnone]
      cases p.nearest? <;> rfl

theorem exact_or_large (hq : 0 ≤ q.value) : nearest q.value = q.value ∨ 2 ^ 53 ≤ q.value := by
  rcases q.cases with ⟨n, -, hn⟩ | ⟨x, -, hx⟩
  · rcases lt_or_ge n (2 ^ 53) with hlt | hge
    · rw [hn] at hq ⊢
      have hnonneg : 0 ≤ n := by exact_mod_cast hq
      exact .inl (nearest_eq_self (onGrid_intCast (by rwa [abs_of_nonneg hnonneg])))
    · exact .inr (by rw [hn]; exact_mod_cast hge)
  · exact .inl (nearest_eq_self (onGrid_of_ofFloat? hx))

theorem exists_int_of_le (hq : 2 ^ 52 ≤ q.value) : ∃ n : Int, q.value = n := by
  rcases q.cases with ⟨n, -, hn⟩ | ⟨x, -, hx⟩
  · exact ⟨n, hn⟩
  · obtain ⟨n, hn⟩ := @OnGrid.exists_multiple _ (onGrid_of_ofFloat? hx) 52 (by exact_mod_cast hq)
    exact ⟨n, by simpa using hn⟩

theorem nearest?_eq_some {v : Rat} (h : q.nearest? = some v) : nearest q.value = v ∧ OnGrid v := by
  rcases q.toFloat_eq with ⟨u, x, hu, -, hx⟩ | ⟨hnone, -⟩
  · cases h.symm.trans hu
    refine ⟨?_, onGrid_of_ofFloat? hx⟩
    rw [nearest?, inRange?] at h
    split at h
    · exact Option.some.inj h
    · cases h
  · cases h.symm.trans hnone

theorem one_le_of_length? {d : Rat} (h : length? p q = some d) (hd : 1 ≤ d)
    (hlow : p.value = 0 ∨ 1 ≤ p.value) : 1 ≤ q.value - p.value := by
  rw [length?] at h
  split at h
  · cases h
    exact hd
  obtain ⟨u, hu, h⟩ := Option.bind_eq_some_iff.1 h
  obtain ⟨v, hv, rfl⟩ := Option.map_eq_some_iff.1 h
  obtain ⟨rfl, hugrid⟩ := nearest?_eq_some hu
  obtain ⟨rfl, hvgrid⟩ := nearest?_eq_some hv
  have hgrid : OnGrid (2 ^ 52) := ⟨2 ^ 52, 0, by norm_num, by norm_num, by norm_num⟩
  have hlow' : nearest p.value = 0 ∨ 1 ≤ nearest p.value :=
    hlow.imp (fun h => by rw [h, nearest_zero]) (le_nearest_of_le onGrid_one)
  have hone := one_le_sub_of_nearest hugrid hvgrid hlow' hd
  have hp : 0 ≤ p.value := by rcases hlow with h | h <;> linarith
  have hq : 0 ≤ q.value := by
    by_contra hneg
    have := nearest_le_of_le onGrid_zero (not_le.1 hneg).le
    have := nearest_nonneg hp
    linarith
  by_contra hlt
  have hwhole (hple : 2 ^ 52 ≤ p.value) (hqle : 2 ^ 52 ≤ q.value) : False := by
    obtain ⟨m, hm⟩ := exists_int_of_le hple
    obtain ⟨n, hn⟩ := exists_int_of_le hqle
    have hle : q.value ≤ p.value := by
      rw [hm, hn] at hlt ⊢
      have : n - m < 1 := by exact_mod_cast not_le.1 hlt
      exact_mod_cast (by omega : n ≤ m)
    have := nearest_mono hle
    linarith
  rcases exact_or_large hp with hpexact | hplarge
  · rcases exact_or_large hq with hqexact | hqlarge
    · rw [hpexact, hqexact] at hone
      exact hlt hone
    · exact hwhole (by linarith) (by linarith)
  · have hple : 2 ^ 52 ≤ p.value := by linarith
    refine hwhole hple ?_
    by_contra hsmall
    have := nearest_le_of_le hgrid (not_le.1 hsmall).le
    have := le_nearest_of_le hgrid hple
    linarith

end Quantity

structure Triple where
  (start stop speed : Quantity)

inductive Flaw : Type
  | origin | duration | speed | gap
  deriving DecidableEq

def Flaw.front : Flaw → String
  | .origin => "First chunk must start with 0"
  | .duration => "Chunk duration must be at least 1"
  | .speed => "Chunk speed range must be >0 and <=99999"
  | .gap => "Chunk disjointed at "

def Flaw.earlier : Flaw → List Flaw
  | .origin => []
  | .duration => [.origin]
  | .speed => [.origin, .duration]
  | .gap => [.origin, .duration, .speed]

theorem Flaw.forall_iff {P : Flaw → Prop} :
    (∀ f, P f) ↔ P .origin ∧ P .duration ∧ P .speed ∧ P .gap := by
  refine ⟨fun h => ⟨h _, h _, h _, h _⟩, ?_⟩
  rintro ⟨horigin, hduration, hspeed, hgap⟩ f
  cases f <;> assumption

namespace Triple

open Exact WrittenChunk

def json (t : Triple) : Json := .arr [t.start.written, t.stop.written, t.speed.written]

def Has (last : Option Quantity) (t : Triple) : Flaw → Prop
  | .origin => last = none ∧ t.start.value ≠ 0
  | .duration => t.stop.value - t.start.value < 1
  | .speed => ¬ (0 < t.speed.value ∧ t.speed.value ≤ 99999)
  | .gap => ∃ e ∈ last, t.start.value ≠ e.value

instance (last : Option Quantity) (t : Triple) : (f : Flaw) → Decidable (t.Has last f)
  | .origin => inferInstanceAs (Decidable (_ ∧ _))
  | .duration => inferInstanceAs (Decidable (_ < _))
  | .speed => inferInstanceAs (Decidable (¬ _))
  | .gap => inferInstanceAs (Decidable (∃ e ∈ last, t.start.value ≠ e.value))

def First (last : Option Quantity) (t : Triple) (f : Flaw) : Prop :=
  t.Has last f ∧ ∀ g ∈ f.earlier, ¬ t.Has last g

instance (last : Option Quantity) (t : Triple) (f : Flaw) : Decidable (t.First last f) :=
  inferInstanceAs (Decidable (_ ∧ _))

def report (t : Triple) : Flaw → String
  | .gap => Flaw.gap.front ++ t.json.literal
  | f => f.front

/-- The length is found to be at least one exactly if it is. -/
def Measured (t : Triple) : Prop :=
  ∃ d, t.start.length? t.stop = some d ∧ (d < 1 ↔ t.stop.value - t.start.value < 1)

def Writable (t : Triple) : Prop := isWritable t.start.written && isWritable t.stop.written

structure Reads (t : Triple) (w : WrittenChunk) : Prop where
  start_eq : w.start = t.start.written
  stop_eq : w.stop = t.stop.written
  speed_eq : t.speed.number.toFloat = .ok w.speed
  value_eq : ofFloat? w.speed = some t.speed.value

variable {t : Triple} {last : Option Quantity} {w : WrittenChunk} {f g : Flaw} {ts : List Triple}

theorem check_json (t : Triple) (last : Option Quantity) :
    check (last.map Quantity.number) t.json =
      if t.Has last .origin then .error (.complaint (t.report .origin)) else
      match t.start.length? t.stop with
      | none => .error .tooLarge
      | some d =>
        if d < 1 then .error (.complaint (t.report .duration)) else
        if t.Has last .speed then .error (.complaint (t.report .speed)) else
        if t.Has last .gap then .error (unjoined t.json t.start.written t.stop.written) else
        t.speed.number.toFloat >>= fun f => .ok ⟨t.start.written, t.stop.written, f⟩ := by
  have horigin : ((last.map Quantity.number).isNone && !t.start.number.eqv 0) = true ↔
      t.Has last .origin := by
    rw [Has, Bool.and_eq_true, Bool.not_eq_true', ← Bool.not_eq_true,
      eqv_iff_of_toRat? t.start.value_eq (toRat?_ofNat 0)]
    simp
  have hspeed : (t.speed.number.le 0 || lt 99999 t.speed.number) = true ↔
      t.Has last .speed := by
    rw [Has, ← withinLimits_iff t.speed.value_eq, Bool.or_eq_true, WithinLimits]
    tauto
  have hgap : (last.map Quantity.number).any (!t.start.number.eqv ·) = true ↔ t.Has last .gap := by
    cases last with
    | none => simp [Has]
    | some e =>
      have heqv := eqv_iff_of_toRat? t.start.value_eq e.value_eq
      simp [Has, ← heqv]
  rw [json, check_triple t.start.number_eq t.stop.number_eq t.speed.number_eq]
  simp only [horigin, hspeed, hgap]
  rcases t.start.sub_eq t.stop with ⟨d, z, hd, hz, hiff⟩ | ⟨hnone, herror⟩
  · simp only [hd, hz, ok_bind, hiff]
    rfl
  · rw [hnone, herror]
    rfl

theorem exists_reads (h : ¬ t.Has last .speed) : ∃ w, t.Reads w := by
  obtain ⟨hlo, hhi⟩ := not_not.1 h
  obtain ⟨x, hx, hvalue⟩ := toFloat_ok t.speed.value_eq
    (le_largest (by rw [abs_of_pos hlo]; linarith))
  rcases t.speed.exact_or_large hlo.le with hexact | hlarge
  · exact ⟨⟨_, _, x⟩, rfl, rfl, hx, by rw [hvalue, hexact]⟩
  · linarith

theorem start_low (hlast : ∀ e ∈ last, 1 ≤ e.value) (horigin : ¬ t.Has last .origin)
    (hgap : ¬ t.Has last .gap) : t.start.value = 0 ∨ 1 ≤ t.start.value := by
  cases last with
  | none => exact .inl (by simpa [Has] using horigin)
  | some e =>
    have hstart : t.start.value = e.value := by simpa [Has] using hgap
    exact .inr (hstart ▸ hlast e rfl)

theorem check_eq_ok (hlast : ∀ e ∈ last, 1 ≤ e.value) :
    check (last.map Quantity.number) t.json = .ok w ↔
      (∀ f, ¬ t.Has last f) ∧ t.Measured ∧ t.Reads w := by
  rw [check_json, ite_error_eq_ok]
  cases hlength : t.start.length? t.stop with
  | none => simp [Measured, hlength]
  | some d =>
    simp only [ite_error_eq_ok, bind_eq_ok, Except.ok.injEq]
    constructor
    · rintro ⟨horigin, hd, hspeed, hgap, x, hx, rfl⟩
      have hduration : ¬ t.Has last .duration :=
        not_lt.2 (Quantity.one_le_of_length? hlength (not_lt.1 hd) (start_low hlast horigin hgap))
      obtain ⟨w, hw⟩ := exists_reads hspeed
      cases hx.symm.trans hw.speed_eq
      exact ⟨Flaw.forall_iff.2 ⟨horigin, hduration, hspeed, hgap⟩,
        ⟨d, hlength, iff_of_false hd hduration⟩, rfl, rfl, hx, hw.value_eq⟩
    · rintro ⟨hsound, ⟨d', hd', hiff⟩, hw⟩
      cases hlength.symm.trans hd'
      refine ⟨hsound _, fun hd => hsound .duration (hiff.1 hd), hsound _, hsound _, w.speed,
        hw.speed_eq, ?_⟩
      rw [← hw.start_eq, ← hw.stop_eq]

theorem report_injective (t : Triple) : Function.Injective t.report := by
  have hfront (f : Flaw) : (t.report f).toList.take 8 = f.front.toList.take 8 := by
    cases f with
    | gap =>
      change (Flaw.gap.front ++ t.json.literal).toList.take 8 = _
      generalize t.json.literal = text
      rw [String.toList_append, take_append_of_le_length (by decide)]
    | origin | duration | speed => rfl
  have hne (f g : Flaw) : f.front.toList.take 8 = g.front.toList.take 8 → f = g := by
    cases f <;> cases g <;> decide
  intro f g h
  exact hne f g ((hfront f).symm.trans ((congrArg (·.toList.take 8) h).trans (hfront g)))

theorem unjoined_eq_complaint (t : Triple) (f : Flaw) :
    unjoined t.json t.start.written t.stop.written = .complaint (t.report f) ↔
      t.Writable ∧ f = .gap := by
  rw [unjoined, Writable]
  split
  · next hwritable =>
    rw [Fault.complaint.injEq, and_iff_right hwritable, eq_comm (a := f)]
    exact t.report_injective.eq_iff (a := .gap)
  · next hwritable => simp [hwritable]

theorem check_eq_complaint (hf : t.First last f) :
    check (last.map Quantity.number) t.json = .error (.complaint (t.report f)) ↔
      f = .origin ∨ t.Measured ∧ (f = .gap → t.Writable) := by
  obtain ⟨hhas, hearlier⟩ := hf
  have hreport (g : Flaw) : (.error (.complaint (t.report g)) : Except Fault WrittenChunk) =
      .error (.complaint (t.report f)) ↔ g = f := by
    simp [t.report_injective.eq_iff]
  rw [check_json]
  cases hlength : t.start.length? t.stop with
  | none =>
    cases f with
    | origin => simp [if_pos hhas]
    | duration | speed | gap =>
      rw [if_neg (hearlier .origin (.head _))]
      simp [Measured, hlength]
  | some d =>
    have hmeasured : t.Measured ↔ (d < 1 ↔ t.Has last .duration) := by simp [Measured, hlength, Has]
    rw [hmeasured]
    dsimp only
    cases f with
    | origin => simp [if_pos hhas]
    | duration =>
      rw [if_neg (hearlier .origin (.head _))]
      by_cases hd : d < 1
      · simp [hd, hhas]
      · have hspeed := hreport .speed
        have hgap := t.unjoined_eq_complaint .duration
        rw [if_neg hd]
        split
        · simp [hd, hhas, hspeed]
        · split
          · simp [hd, hhas, hgap]
          · obtain ⟨w, hw⟩ := exists_reads ‹_›
            simp [hd, hhas, hw.speed_eq]
    | speed =>
      have hduration : ¬ t.Has last .duration := hearlier .duration (.tail _ (.head _))
      rw [if_neg (hearlier .origin (.head _)), if_pos hhas]
      by_cases hd : d < 1 <;> simp [hd, hduration, hreport]
    | gap =>
      have hduration : ¬ t.Has last .duration := hearlier .duration (.tail _ (.head _))
      have hspeed : ¬ t.Has last .speed := hearlier .speed (.tail _ (.tail _ (.head _)))
      rw [if_neg (hearlier .origin (.head _)), if_neg hspeed, if_pos hhas]
      by_cases hd : d < 1 <;> simp [hd, hduration, hreport, unjoined_eq_complaint]

def Fit : Option Quantity → List Triple → Prop
  | _, [] => True
  | last, t :: ts => (∀ f, ¬ t.Has last f) ∧ Fit (some t.stop) ts

theorem one_le_stop (hlast : ∀ e ∈ last, 1 ≤ e.value) (h : ∀ f, ¬ t.Has last f) :
    ∀ e ∈ some t.stop, 1 ≤ e.value := by
  intro e he
  cases he
  have hlength : 1 ≤ t.stop.value - t.start.value := not_lt.1 (h .duration)
  rcases start_low hlast (h _) (h _) with hstart | hstart <;> linarith

theorem checkAll_eq_ok {ws : List WrittenChunk} (hlast : ∀ e ∈ last, 1 ≤ e.value) :
    checkAll (last.map Quantity.number) (ts.map json) = .ok ws ↔
      Fit last ts ∧ (∀ t ∈ ts, t.Measured) ∧ Forall₂ Reads ts ws := by
  induction ts generalizing last ws with
  | nil => simp [checkAll, Fit, eq_comm]
  | cons t ts ih =>
    have htail {w : WrittenChunk} (hw : t.Reads w) :
        w.stop.number? = (some t.stop).map Quantity.number := by
      rw [hw.stop_eq, t.stop.number_eq]
      rfl
    simp only [map_cons, checkAll, bind_eq_ok, pure_eq_ok, check_eq_ok hlast, Fit,
      forall_mem_cons, forall₂_cons_left_iff]
    constructor
    · rintro ⟨w, ⟨hsound, hmeasured, hw⟩, ws, hall, rfl⟩
      rw [htail hw, ih (one_le_stop hlast hsound)] at hall
      exact ⟨⟨hsound, hall.1⟩, ⟨hmeasured, hall.2.1⟩, w, ws, hw, hall.2.2, rfl⟩
    · rintro ⟨⟨hsound, hfit⟩, ⟨hmeasured, hall⟩, w, ws, hw, hws, rfl⟩
      refine ⟨w, ⟨hsound, hmeasured, hw⟩, ws, ?_, rfl⟩
      rw [htail hw, ih (one_le_stop hlast hsound)]
      exact ⟨hfit, hall, hws⟩

theorem return_eq_error {α β : Type} {x : Except Fault α} {g : α → β} {fault : Fault} :
    (x >>= fun a => pure (g a)) = .error fault ↔ x = .error fault := by
  cases x with
  | ok a =>
    change Except.ok _ = Except.error fault ↔ _
    simp only [reduceCtorEq]
  | error e =>
    change Except.error e = Except.error fault ↔ _
    simp only [Except.error.injEq]

def endOf (last : Option Quantity) (ts : List Triple) : Option Quantity :=
  (ts.getLast?.map stop).or last

theorem endOf_cons (last : Option Quantity) (t : Triple) (ts : List Triple) :
    endOf last (t :: ts) = endOf (some t.stop) ts := by
  cases ts with
  | nil => rfl
  | cons u us => rw [endOf, endOf, getLast?_cons_cons, getLast?_cons]; rfl

theorem checkAll_of_front {front rest : List Triple} (hlast : ∀ e ∈ last, 1 ≤ e.value)
    (hfit : Fit last front) (hmeasured : ∀ u ∈ front, u.Measured)
    (hhas : t.Has (endOf last front) f) {fault : Fault} :
    checkAll (last.map Quantity.number) ((front ++ t :: rest).map json) = .error fault ↔
      check ((endOf last front).map Quantity.number) t.json = .error fault := by
  induction front generalizing last with
  | nil =>
    change (check (last.map Quantity.number) t.json >>= _) = _ ↔ _
    cases hcheck : check (last.map Quantity.number) t.json with
    | error e =>
      change Except.error e = Except.error fault ↔ check (last.map Quantity.number) t.json = _
      rw [hcheck, Except.error.injEq, Except.error.injEq]
    | ok w => exact absurd hhas (((check_eq_ok hlast).1 hcheck).1 f)
  | cons u us ih =>
    obtain ⟨hsound, hfit⟩ := hfit
    obtain ⟨hu, hmeasured⟩ := forall_mem_cons.1 hmeasured
    obtain ⟨w, hw⟩ := exists_reads (hsound .speed)
    rw [endOf_cons] at hhas ⊢
    rw [← ih (one_le_stop hlast hsound) hfit hmeasured hhas, cons_append, map_cons,
      checkAll, (check_eq_ok hlast).2 ⟨hsound, hu, hw⟩, ok_bind, hw.stop_eq, u.stop.number_eq]
    exact return_eq_error

/-- The chunks cover a stretch from zero on without gaps, each of some length and with an allowed
speed. -/
structure WellFormed (ts : List Triple) : Prop where
  begins : ∃ t, ts.head? = some t ∧ t.start.value = 0
  long : ∀ t ∈ ts, 1 ≤ t.stop.value - t.start.value
  paced : ∀ t ∈ ts, 0 < t.speed.value ∧ t.speed.value ≤ 99999
  joined : ts.IsChain fun t u => u.start.value = t.stop.value

theorem sound_iff : (∀ f, ¬ t.Has last f) ↔ (last = none → t.start.value = 0) ∧
    1 ≤ t.stop.value - t.start.value ∧ (0 < t.speed.value ∧ t.speed.value ≤ 99999) ∧
    ∀ e ∈ last, t.start.value = e.value := by
  simp [Flaw.forall_iff, Has]

theorem fit_iff : Fit last ts ↔
    (∀ t ∈ ts.head?, last = none → t.start.value = 0) ∧
    (∀ t ∈ ts, 1 ≤ t.stop.value - t.start.value) ∧
    (∀ t ∈ ts, 0 < t.speed.value ∧ t.speed.value ≤ 99999) ∧
    (∀ t ∈ ts.head?, ∀ e ∈ last, t.start.value = e.value) ∧
    ts.IsChain fun t u => u.start.value = t.stop.value := by
  induction ts generalizing last with
  | nil => simp [Fit]
  | cons t ts ih =>
    rw [Fit, sound_iff, ih]
    simp only [forall_mem_cons, isChain_cons, head?_cons, Option.mem_def,
      Option.some.injEq, forall_eq', reduceCtorEq, false_imp_iff, implies_true, true_and]
    tauto

theorem wellFormed_iff : WellFormed ts ↔ ts ≠ [] ∧ Fit none ts := by
  rw [fit_iff]
  cases ts with
  | nil => exact ⟨fun h => by simpa using h.begins, fun h => absurd rfl h.1⟩
  | cons t ts =>
    constructor
    · intro h
      exact ⟨by simp, by simpa using h.begins, h.long, h.paced, by simp, h.joined⟩
    · rintro ⟨-, hbegins, hlong, hpaced, -, hjoined⟩
      exact ⟨⟨t, rfl, hbegins t rfl rfl⟩, hlong, hpaced, hjoined⟩

theorem validate_map (h : ts ≠ []) :
    validate (.arr (ts.map json)) = checkAll none (ts.map json) := by
  cases ts with
  | nil => exact absurd rfl h
  | cons t ts => rfl

/-- The chunks that are accepted are those that cover a stretch from zero on, as far as their
lengths are measured right. They are returned as they are. Of others the first flaw of the first
chunk that has one is reported. -/
theorem validate_wellFormed_iff (ts : List Triple) :
    ((∃ ws, validate (.arr (ts.map json)) = .ok ws) ↔ WellFormed ts ∧ ∀ t ∈ ts, t.Measured) ∧
    (∀ ws, validate (.arr (ts.map json)) = .ok ws → Forall₂ Reads ts ws) ∧
    (ts = [] → validate (.arr (ts.map json)) = .error (.complaint "Chunks are empty!")) ∧
    ∀ front t rest f, ts = front ++ t :: rest → (front = [] ∨ WellFormed front) →
      (∀ u ∈ front, u.Measured) → t.First (front.getLast?.map stop) f →
      (validate (.arr (ts.map json)) = .error (.complaint (t.report f)) ↔
        f = .origin ∨ t.Measured ∧ (f = .gap → t.Writable)) := by
  have hnone : ∀ e ∈ (none : Option Quantity), 1 ≤ e.value := by simp
  have hok (ws : List WrittenChunk) : validate (.arr (ts.map json)) = .ok ws ↔
      WellFormed ts ∧ (∀ t ∈ ts, t.Measured) ∧ Forall₂ Reads ts ws := by
    rw [wellFormed_iff]
    by_cases hts : ts = []
    · rw [hts]
      simp [validate, complain]
    · rw [validate_map hts, and_iff_right hts]
      exact checkAll_eq_ok hnone
  refine ⟨⟨fun h => ?_, fun h => ?_⟩, fun ws h => ((hok ws).1 h).2.2, ?_, ?_⟩
  · obtain ⟨ws, hws⟩ := h
    exact ⟨((hok ws).1 hws).1, ((hok ws).1 hws).2.1⟩
  · obtain ⟨ws, hws⟩ := exists_forall₂ fun t ht => @exists_reads t none (not_not.2 (h.1.paced t ht))
    exact ⟨ws, (hok ws).2 ⟨h.1, h.2, hws⟩⟩
  · rintro rfl
    rfl
  · rintro front t rest f rfl hfront hmeasured hfirst
    have hfit : Fit none front := by
      rcases hfront with rfl | hfront
      · trivial
      · exact (wellFormed_iff.1 hfront).2
    have hend : endOf none front = front.getLast?.map stop := Option.or_none
    rw [← hend] at hfirst
    rw [validate_map (by simp), ← check_eq_complaint hfirst]
    exact checkAll_of_front hnone hfit hmeasured hfirst.1

theorem measured_of_whole (hstart : t.start.isWhole) (hstop : t.stop.isWhole) : t.Measured :=
  ⟨_, if_pos (Bool.and_eq_true_iff.2 ⟨hstart, hstop⟩), Iff.rfl⟩

def gapped : List Triple :=
  [⟨.int 0, .int 3, .int 1⟩,
    ⟨.int 3, .int 7, ⟨.float 2.5, .float 2.5, 5 / 2, rfl, by decide +kernel⟩⟩,
    ⟨.int 8, .int 9, .int 1⟩]

theorem validate_wellFormed_iff_gapped :
    (∃ ws, validate (.arr ((gapped.take 2).map json)) = .ok ws) ∧
    validate (.arr (gapped.map json)) = .error (.complaint "Chunk disjointed at [8, 9, 1]") := by
  have hfront : WellFormed (gapped.take 2) :=
    ⟨⟨_, rfl, rfl⟩, by decide +kernel, by decide +kernel, by decide +kernel⟩
  have hwhole : ∀ t ∈ gapped.take 2, t.start.isWhole ∧ t.stop.isWhole := by decide +kernel
  have hmeasured : ∀ t ∈ gapped.take 2, t.Measured := fun t ht =>
    measured_of_whole (hwhole t ht).1 (hwhole t ht).2
  refine ⟨(validate_wellFormed_iff (gapped.take 2)).1.2 ⟨hfront, hmeasured⟩, ?_⟩
  have hreport := (validate_wellFormed_iff gapped).2.2.2 (gapped.take 2)
    ⟨.int 8, .int 9, .int 1⟩ [] .gap rfl (.inr hfront) hmeasured (by decide +kernel)
  have hwritable : (isWritable (.int 8) && isWritable (.int 9)) = true := by decide +kernel
  exact hreport.2 (.inr ⟨measured_of_whole rfl rfl, fun _ => hwritable⟩)

def threeHalves : Quantity := ⟨.float 1.5, .float 1.5, 3 / 2, rfl, by decide +kernel⟩

def fallingBack (n : Int) : List Triple :=
  [⟨.int 0, .int n, .int 1⟩, ⟨.int n, threeHalves, .int 1⟩]

theorem validate_fallingBack {n : Int} (hn : 1 < n) (hlarge : (toFloat? (n : Rat)).isNone) :
    validate (.arr ((fallingBack n).map json)) = .error .tooLarge := by
  have hone : (1 : Rat) < n := by exact_mod_cast hn
  have hfit : Fit none [⟨.int 0, .int n, .int 1⟩] :=
    ⟨sound_iff.2 (by simpa [Quantity.int] using hone.le), trivial⟩
  have hmeasured : ∀ t ∈ [Triple.mk (.int 0) (.int n) (.int 1)], t.Measured := by
    simpa using measured_of_whole rfl rfl
  have hfloat : (int n).toFloat = .error .tooLarge := by
    change nearestFloat n = _
    rw [nearestFloat, Option.isNone_iff_eq_none.1 hlarge]
  have hlength : (Quantity.int n).length? threeHalves = none := by
    rcases (Quantity.int n).sub_eq threeHalves with ⟨d, z, -, hz, -⟩ | ⟨hnone, -⟩
    · change ((int n).toFloat >>= _) = .ok z at hz
      rw [hfloat] at hz
      cases hz
    · exact hnone
  refine (checkAll_of_front (by simp) hfit hmeasured (f := .duration) ?_).2 ?_
  · change (3 / 2 : Rat) - n < 1
    linarith
  · rw [check_json, if_neg (by simp [Has, endOf]), hlength]

/-- The second chunk ends before it begins. This is not reported, as the first one is too long for
binary64. -/
theorem validate_length_not_reported :
    (∀ u ∈ (fallingBack (10 ^ 400))[1]?, u.First (some (.int (10 ^ 400))) .duration) ∧
    validate (.arr ((fallingBack (10 ^ 400)).map json)) = .error .tooLarge :=
  ⟨by decide +kernel, validate_fallingBack (by decide +kernel) (by decide +kernel)⟩

end Triple

end Jumpcut
