import Jumpcut.Proofs.OutcomeLaws
import Jumpcut.Render.Search
import Mathlib.Logic.Relation

/-!
What a search for a frame comes to. The way ahead is a relation with one rule per step. From it:
nothing depends on what the frames show; a request either keeps what is on the screen or puts a frame
of its own reel or the blank there; and in a reel whose ticks never go back it ends at the first frame
for the tick, unless a jump lands behind that frame.
-/
namespace Jumpcut

open List Reel Head

variable {α β : Type}

def Shot.map (f : α → β) (s : Shot α) : Shot β := ⟨s.tick, f s.shown, s.key, s.pts⟩

def Head.map (f : α → β) (h : Head α) : Head β :=
  ⟨f h.shown, h.tick, h.jumpAfter, h.jumpedFrom, h.saved⟩

namespace Reel

variable {r r' : Reel α} {s : Shot α}

def map (f : α → β) (r : Reel α) : Reel β := ⟨r.shots.map (Shot.map f), r.place, r.ended⟩

theorem next_eq_some_iff :
    r.next = some (s, r') ↔
      r.ended = false ∧ r.shots[r.place]? = some s ∧ r' = ⟨r.shots, r.place + 1, false⟩ := by
  cases hended : r.ended <;> simp [next, hended, eq_comm (b := r')]

theorem next_eq_none_iff : r.next = none ↔ r.ended = true ∨ r.shots.length ≤ r.place := by
  cases hended : r.ended <;> simp [next, hended]

theorem next_map (f : α → β) (r : Reel α) :
    (r.map f).next = r.next.map (Prod.map (Shot.map f) (map f)) := by
  cases hended : r.ended <;> simp [next, map, hended, Function.comp_def]

theorem keyPlace_map (f : α → β) (r : Reel α) (stamp : Int) :
    (r.map f).keyPlace stamp = r.keyPlace stamp := by
  simp only [keyPlace, map, zipIdx_map, filter_map, getLast?_map, Option.map_map]
  rfl

/-- Nothing can be read any more, not even from the beginning. -/
def Spent (r : Reel α) : Prop := r.ended = true ∨ r.shots = []

theorem next_rewound_eq_none_iff : r.rewound.next = none ↔ r.Spent := by
  simp [next_eq_none_iff, rewound, Spent]

theorem keyPlace_lt (hne : r.shots ≠ []) (stamp : Int) : r.keyPlace stamp < r.shots.length := by
  rw [keyPlace]
  cases hlast : (r.shots.zipIdx.filter fun s => s.1.key && s.1.pts ≤ stamp).getLast? with
  | none => exact length_pos_iff.2 hne
  | some x => exact snd_lt_of_mem_zipIdx (mem_of_mem_filter (mem_of_getLast? hlast))

theorem keyPlace_cases (r : Reel α) (stamp : Int) :
    r.keyPlace stamp = 0 ∨ ∃ s, r.shots[r.keyPlace stamp]? = some s ∧ s.pts ≤ stamp := by
  rw [keyPlace]
  cases hlast : (r.shots.zipIdx.filter fun s => s.1.key && s.1.pts ≤ stamp).getLast? with
  | none => exact .inl rfl
  | some x =>
    obtain ⟨hmem, hkey⟩ := mem_filter.1 (mem_of_getLast? hlast)
    simp only [Bool.and_eq_true, decide_eq_true_eq] at hkey
    exact .inr ⟨x.1, mem_zipIdx_iff_getElem?.1 hmem, hkey.2⟩

def first (r : Reel α) (want : Int) : Nat := r.shots.findIdx fun s => want ≤ s.tick

def Ordered (r : Reel α) : Prop := r.shots.Pairwise fun a b => a.tick ≤ b.tick

theorem first_lt_iff {want : Int} : r.first want < r.shots.length ↔ ∃ s ∈ r.shots, want ≤ s.tick := by
  simp only [first, findIdx_lt_length, decide_eq_true_eq]

theorem tick_le_of_le (hord : r.Ordered) {j k : Nat} {s' : Shot α} (hj : r.shots[j]? = some s)
    (hk : r.shots[k]? = some s') (hle : j ≤ k) : s.tick ≤ s'.tick := by
  obtain ⟨hj', rfl⟩ := List.getElem?_eq_some_iff.1 hj
  obtain ⟨hk', rfl⟩ := List.getElem?_eq_some_iff.1 hk
  rcases Nat.lt_or_eq_of_le hle with hlt | rfl
  · exact pairwise_iff_getElem.1 hord _ _ hj' hk' hlt
  · exact Int.le_refl _

theorem first_le_iff (hord : r.Ordered) {k : Nat} (hk : r.shots[k]? = some s) (want : Int) :
    r.first want ≤ k ↔ want ≤ s.tick := by
  constructor
  · intro hle
    have hin : r.first want < r.shots.length :=
      Nat.lt_of_le_of_lt hle (List.getElem?_eq_some_iff.1 hk).1
    have hfirst : want ≤ r.shots[r.first want].tick :=
      of_decide_eq_true (findIdx_getElem (w := hin))
    exact Int.le_trans hfirst (tick_le_of_le hord (getElem?_eq_getElem hin) hk hle)
  · intro hle
    obtain ⟨hlt, rfl⟩ := List.getElem?_eq_some_iff.1 hk
    refine Nat.le_of_not_lt fun hgt => ?_
    have hnot := not_of_lt_findIdx hgt
    simp only [decide_eq_false_iff_not] at hnot
    exact hnot hle

end Reel

namespace Search

variable {p : Pace} {blank : α} {i j want : Int} {h h' h'' : Head α} {r r' r'' : Reel α}

theorem jumps_iff : h.jumps p want = true ↔ p.cost < want - h.tick ∧ h.jumpAfter < h.tick := by
  simp only [jumps, Bool.and_eq_true, decide_eq_true_eq]

def approach (p : Pace) (want : Int) (h : Head α) (r : Reel α) : Head α × Reel α :=
  if h.jumps p want then (h.jumped p, r.soughtTo (want * p.stamps)) else (h, r)

/-- The way ahead, from where head and reel stand to where they come to. -/
inductive Reaches (p : Pace) (blank : α) (want : Int) :
    Head α → Reel α → Head α → Reel α → Prop
  | here {h : Head α} {r : Reel α} : want ≤ h.tick → Reaches p blank want h r h r
  | lost {h : Head α} {r : Reel α} : h.tick < want → (approach p want h r).2.next = none →
    Reaches p blank want h r { (approach p want h r).1 with shown := blank }
      (approach p want h r).2.stopped
  | read {h h' : Head α} {r r₁ r' : Reel α} {s : Shot α} : h.tick < want →
    (approach p want h r).2.next = some (s, r₁) →
    Reaches p blank want ((approach p want h r).1.accept s) r₁ h' r' →
    Reaches p blank want h r h' r'

theorem forward_reaches (p : Pace) (blank : α) (i want : Int) (h : Head α) (r : Reel α) :
    Reaches p blank want h r (forward p blank i want h r).head
      (forward p blank i want h r).reel := by
  fun_induction forward p blank i want h r with
  | case1 h r hle => exact .here hle
  | case2 h r hlt hj stamp events hn =>
    have hway : approach p want h r = (h.jumped p, r.soughtTo stamp) := if_pos hj
    have hlost := @Reaches.lost α p blank want h r (by omega) (by rw [hway]; exact hn)
    rwa [hway] at hlost
  | case3 h r hlt hj stamp events s r₁ hn ih =>
    have hway : approach p want h r = (h.jumped p, r.soughtTo stamp) := if_pos hj
    refine .read (by omega) (by rw [hway]; exact hn) ?_
    rw [hway]
    exact ih
  | case4 h r hlt hj hn =>
    have hway : approach p want h r = (h, r) := if_neg hj
    have hlost := @Reaches.lost α p blank want h r (by omega) (by rw [hway]; exact hn)
    rwa [hway] at hlost
  | case5 h r hlt hj s r₁ hn ih =>
    have hway : approach p want h r = (h, r) := if_neg hj
    refine .read (by omega) (by rw [hway]; exact hn) ?_
    rw [hway]
    exact ih

/-- A pass that reads a frame. A jump may land anywhere. -/
inductive Pass (p : Pace) (want : Int) : Head α × Reel α → Head α × Reel α → Prop
  | read {h : Head α} {r r' : Reel α} {s : Shot α} : h.tick < want → ¬ h.jumps p want →
    r.next = some (s, r') → Pass p want (h, r) (h.accept s, r')
  | jump {h : Head α} {r r' : Reel α} {s : Shot α} {place : Nat} : h.tick < want → h.jumps p want →
    ({ r with place } : Reel α).next = some (s, r') → Pass p want (h, r) ((h.jumped p).accept s, r')

theorem Pass.room_lt {x y : Head α × Reel α} (hpass : Pass p want x y) : y.1.room y.2 < x.1.room x.2 := by
  cases hpass with
  | read _ _ hn => exact room_accept_lt hn
  | jump _ hj hn => exact room_jumped_lt (jumps_iff.1 hj).2 hn

theorem Pass.length_le_room {x : Head α × Reel α} {xs : List (Head α × Reel α)}
    (hrun : (x :: xs).IsChain (Pass p want)) : xs.length ≤ x.1.room x.2 :=
  Outcome.length_le_rank (fun x => x.1.room x.2) (fun _ _ => Pass.room_lt) hrun

theorem room_le (h : Head α) (r : Reel α) :
    h.room r ≤ (r.shots.length + 1) * (r.shots.length + 1) + r.shots.length := by
  have hcount : countAfter r.ticks h.jumpAfter ≤ r.shots.length :=
    Nat.le_trans countP_le_length (Nat.le_of_eq (length_map _))
  have hchances : h.chances r ≤ r.shots.length + 1 := by
    rw [chances]
    split <;> omega
  exact Nat.add_le_add (Nat.mul_le_mul_right _ hchances) (Nat.sub_le _ _)

theorem pass_of_approach {s : Shot α} (hlt : h.tick < want)
    (hn : (approach p want h r).2.next = some (s, r')) :
    Pass p want (h, r) ((approach p want h r).1.accept s, r') := by
  by_cases hj : h.jumps p want
  · have hway : approach p want h r = (h.jumped p, r.soughtTo (want * p.stamps)) := if_pos hj
    rw [hway] at hn ⊢
    exact .jump hlt hj hn
  · have hway : approach p want h r = (h, r) := if_neg hj
    rw [hway] at hn ⊢
    exact .read hlt hj hn

theorem Reaches.passes (hr : Reaches p blank want h r h' r') :
    ∃ x, Relation.ReflTransGen (Pass p want) (h, r) x ∧
      (want ≤ x.1.tick ∧ (h', r') = x ∨
        x.1.tick < want ∧ (approach p want x.1 x.2).2.next = none ∧ h'.shown = blank ∧ r'.ended = true) := by
  induction hr with
  | @here h r hle => exact ⟨(h, r), .refl, .inl ⟨hle, rfl⟩⟩
  | @lost h r hlt hn => exact ⟨(h, r), .refl, .inr ⟨hlt, hn, rfl, rfl⟩⟩
  | read hlt hn _ ih =>
    obtain ⟨x, hsteps, hend⟩ := ih
    exact ⟨x, .head (pass_of_approach hlt hn) hsteps, hend⟩

/-- A search ends, wherever its jumps land: a reel of `n` frames allows no more than `(n + 1) ^ 2 + n`
passes. It stops at a frame for the tick, or with the blank at the end of the reel. -/
theorem forward_terminates (p : Pace) (blank : α) (i want : Int) (h : Head α) (r : Reel α) :
    (∀ xs, ((h, r) :: xs).IsChain (Pass p want) →
      xs.length ≤ (r.shots.length + 1) * (r.shots.length + 1) + r.shots.length) ∧
    ∃ x, Relation.ReflTransGen (Pass p want) (h, r) x ∧
      (want ≤ x.1.tick ∧
          ((forward p blank i want h r).head, (forward p blank i want h r).reel) = x ∨
        x.1.tick < want ∧ (approach p want x.1 x.2).2.next = none ∧
          (forward p blank i want h r).head.shown = blank ∧
          (forward p blank i want h r).reel.ended = true) :=
  ⟨fun _ hrun => Nat.le_trans (Pass.length_le_room hrun) (room_le h r),
    (forward_reaches p blank i want h r).passes⟩

theorem Reaches.unique (hr : Reaches p blank want h r h' r') (hr' : Reaches p blank want h r h'' r'') :
    h' = h'' ∧ r' = r'' := by
  induction hr with
  | here hle =>
    cases hr' with
    | here _ => exact ⟨rfl, rfl⟩
    | lost hlt _ => omega
    | read hlt _ _ => omega
  | lost hlt hn =>
    cases hr' with
    | here hle => omega
    | lost _ _ => exact ⟨rfl, rfl⟩
    | read _ hs _ => cases hn.symm.trans hs
  | read hlt hs _ ih =>
    cases hr' with
    | here hle => omega
    | lost _ hn => cases hn.symm.trans hs
    | read _ hs' hrest =>
      cases hs.symm.trans hs'
      exact ih hrest

theorem Reaches.eq_of_le (hr : Reaches p blank want h r h' r') (hle : want ≤ h.tick) :
    h' = h ∧ r' = r := hr.unique (.here hle)

theorem approach_map (f : α → β) (p : Pace) (want : Int) (h : Head α) (r : Reel α) :
    approach p want (h.map f) (r.map f) =
      ((approach p want h r).1.map f, (approach p want h r).2.map f) := by
  rw [approach, approach, apply_ite Prod.fst, apply_ite Prod.snd]
  change (if h.jumps p want then _ else _) = _
  split
  · simp only [soughtTo, keyPlace_map]
    rfl
  · rfl

theorem Reaches.map (f : α → β) (hr : Reaches p blank want h r h' r') :
    Reaches p (f blank) want (h.map f) (r.map f) (h'.map f) (r'.map f) := by
  induction hr with
  | here hle => exact .here hle
  | @lost h r hlt hn =>
    have hlost := @Reaches.lost β p (f blank) want (h.map f) (r.map f) hlt
      (by rw [approach_map, next_map, hn]; rfl)
    rwa [approach_map] at hlost
  | @read h h' r r₁ r' s hlt hs _ ih =>
    have hs' : (approach p want (h.map f) (r.map f)).2.next = some (s.map f, r₁.map f) := by
      rw [approach_map, next_map, hs]
      rfl
    refine .read hlt hs' ?_
    rw [approach_map]
    exact ih

theorem approach_reel (p : Pace) (want : Int) (h : Head α) (r : Reel α) :
    ∃ place, (approach p want h r).2 = ⟨r.shots, place, r.ended⟩ := by
  rw [approach]
  split
  · exact ⟨r.keyPlace (want * p.stamps), rfl⟩
  · exact ⟨r.place, rfl⟩

theorem approach_head (p : Pace) (want : Int) (h : Head α) (r : Reel α) :
    (approach p want h r).1.tick = h.tick ∧ h.jumpAfter ≤ (approach p want h r).1.jumpAfter := by
  rw [approach]
  split
  · next hj =>
    rw [jumps_iff] at hj
    refine ⟨rfl, ?_⟩
    simp only [jumped]
    omega
  · exact ⟨rfl, Int.le_refl _⟩

section

variable (hr : Reaches p blank want h r h' r')

include hr

theorem Reaches.shots : r'.shots = r.shots := by
  induction hr with
  | here _ => rfl
  | @lost h r _ _ =>
    obtain ⟨place, hway⟩ := approach_reel p want h r
    rw [hway]
    rfl
  | @read h _ r _ _ _ _ hs _ ih =>
    obtain ⟨place, hway⟩ := approach_reel p want h r
    rw [ih, (next_eq_some_iff.1 hs).2.2, hway]

theorem Reaches.shown (hlt : h.tick < want) :
    (∃ s ∈ r.shots, h'.shown = s.shown ∧ h'.tick = s.tick) ∨ h'.shown = blank := by
  induction hr with
  | here hle => omega
  | lost _ _ => exact .inr rfl
  | @read h h' r r₁ r' s _ hs hrest ih =>
    obtain ⟨place, hway⟩ := approach_reel p want h r
    rw [hway, next_eq_some_iff] at hs
    obtain ⟨-, hget, rfl⟩ := hs
    by_cases hle : want ≤ s.tick
    · obtain ⟨rfl, -⟩ := hrest.eq_of_le hle
      exact .inl ⟨s, mem_of_getElem? hget, rfl, rfl⟩
    · exact ih (Int.not_le.1 hle)

theorem Reaches.jumpAfter_eq (hle : want ≤ h.jumpAfter + 1) : h'.jumpAfter = h.jumpAfter := by
  induction hr with
  | here _ => rfl
  | @lost h r hlt _ =>
    have hstay : approach p want h r = (h, r) := if_neg (by rw [jumps_iff]; omega)
    rw [hstay]
  | @read h h' r r₁ r' s hlt _ _ ih =>
    have hstay : approach p want h r = (h, r) := if_neg (by rw [jumps_iff]; omega)
    rw [hstay] at ih
    exact ih hle

theorem Reaches.of_ended (hended : r.ended = true) (hlt : h.tick < want) :
    h'.shown = blank ∧ h'.tick = h.tick ∧ h.jumpAfter ≤ h'.jumpAfter ∧ r'.ended = true := by
  cases hr with
  | here hle => omega
  | lost _ _ => exact ⟨rfl, (approach_head p want h r).1, (approach_head p want h r).2, rfl⟩
  | read _ hs _ =>
    obtain ⟨place, hway⟩ := approach_reel p want h r
    rw [hway, next_eq_some_iff] at hs
    cases hended.symm.trans hs.1

end

theorem back_of_le (hle : h.tick ≤ want) : back want h r = ⟨h, r, []⟩ := by
  rw [back, if_neg (by omega)]

theorem back_of_spent (hlt : want < h.tick) (hspent : r.Spent) :
    (back want h r).head = h ∧ (back want h r).reel = r.rewound.stopped := by
  rw [back, if_pos hlt, next_rewound_eq_none_iff.2 hspent]
  exact ⟨rfl, rfl⟩

theorem back_of_not_spent (hlt : want < h.tick) (hspent : ¬ r.Spent) :
    ∃ s, r.shots[0]? = some s ∧ (back want h r).head = h.place s ∧
      (back want h r).reel = ⟨r.shots, 1, false⟩ := by
  obtain ⟨⟨s, r'⟩, hs⟩ :=
    Option.ne_none_iff_exists'.1 (mt next_rewound_eq_none_iff.1 hspent)
  obtain ⟨-, hget, rfl⟩ := next_eq_some_iff.1 hs
  rw [back, if_pos hlt, hs]
  exact ⟨s, hget, rfl, rfl⟩

theorem back_map (f : α → β) (want : Int) (h : Head α) (r : Reel α) :
    (back want (h.map f) (r.map f)).head = (back want h r).head.map f ∧
      (back want (h.map f) (r.map f)).reel = (back want h r).reel.map f := by
  have hnext : (r.map f).rewound.next = r.rewound.next.map (Prod.map (Shot.map f) (Reel.map f)) :=
    r.rewound.next_map f
  by_cases hlt : want < h.tick
  · rw [back, back, if_pos hlt, if_pos (show want < (h.map f).tick from hlt), hnext]
    cases r.rewound.next <;> exact ⟨rfl, rfl⟩
  · rw [back_of_le (Int.not_lt.1 hlt), back_of_le (show (h.map f).tick ≤ want from Int.not_lt.1 hlt)]
    exact ⟨rfl, rfl⟩

theorem serve_reaches (p : Pace) (blank : α) (i want : Int) (h : Head α) (r : Reel α) :
    Reaches p blank want (back want h r).head (back want h r).reel (serve p blank i want h r).head
      (serve p blank i want h r).reel := forward_reaches p blank i want _ _

theorem serve_map (f : α → β) (p : Pace) (blank : α) (i j want : Int) (h : Head α) (r : Reel α) :
    (serve p (f blank) j want (h.map f) (r.map f)).head = (serve p blank i want h r).head.map f ∧
      (serve p (f blank) j want (h.map f) (r.map f)).reel =
        (serve p blank i want h r).reel.map f := by
  obtain ⟨hhead, hreel⟩ := back_map f want h r
  have hreach := serve_reaches p (f blank) j want (h.map f) (r.map f)
  rw [hhead, hreel] at hreach
  exact hreach.unique ((serve_reaches p blank i want h r).map f)

/-- The request leaves on the screen what is there: it is for the tick that was read last, or for
an earlier one of a reel that gives nothing more. -/
def Keeps (want : Int) (h : Head α) (r : Reel α) : Prop :=
  want = h.tick ∨ want < h.tick ∧ r.Spent

theorem serve_of_keeps (hk : Keeps want h r) : (serve p blank i want h r).head = h := by
  have hreach := serve_reaches p blank i want h r
  rcases hk with rfl | ⟨hlt, hspent⟩
  · rw [back_of_le (Int.le_refl _)] at hreach
    exact (hreach.eq_of_le (Int.le_refl _)).1
  · obtain ⟨hhead, -⟩ := back_of_spent hlt hspent
    rw [hhead] at hreach
    exact (hreach.eq_of_le (Int.le_of_lt hlt)).1

theorem serve_of_not_keeps (hk : ¬ Keeps want h r) :
    (∃ s ∈ r.shots, (serve p blank i want h r).head.shown = s.shown ∧
      (serve p blank i want h r).head.tick = s.tick) ∨
    (serve p blank i want h r).head.shown = blank := by
  have hreach := serve_reaches p blank i want h r
  rcases Int.lt_trichotomy want h.tick with hlt | heq | hgt
  · obtain ⟨s, hget, hhead, hreel⟩ := back_of_not_spent hlt fun hspent => hk (.inr ⟨hlt, hspent⟩)
    rw [hhead, hreel] at hreach
    by_cases hle : want ≤ s.tick
    · obtain ⟨hsame, -⟩ := hreach.eq_of_le hle
      rw [hsame]
      exact .inl ⟨s, mem_of_getElem? hget, rfl, rfl⟩
    · exact hreach.shown (Int.not_le.1 hle)
  · exact absurd (.inl heq) hk
  · rw [back_of_le (Int.le_of_lt hgt)] at hreach
    exact hreach.shown hgt

theorem serve_of_jump (blank : α) (i : Int) {s : Shot α} (hj : h.jumps p want)
    (hended : r.ended = false) (hs : r.shots[r.keyPlace (want * p.stamps)]? = some s)
    (hle : want ≤ s.tick) : (serve p blank i want h r).head = (h.jumped p).accept s := by
  have hlt : h.tick < want := by
    rw [jumps_iff] at hj
    omega
  have hreach := serve_reaches p blank i want h r
  rw [back_of_le (Int.le_of_lt hlt)] at hreach
  have hway : approach p want h r = (h.jumped p, r.soughtTo (want * p.stamps)) := if_pos hj
  have hread : Reaches p blank want h r ((h.jumped p).accept s)
      ⟨r.shots, r.keyPlace (want * p.stamps) + 1, false⟩ := by
    refine .read hlt (by rw [hway]; exact next_eq_some_iff.2 ⟨hended, hs, rfl⟩) ?_
    rw [hway]
    exact .here hle
  exact (hreach.unique hread).1

theorem shots_back : (back want h r).reel.shots = r.shots := by
  by_cases hlt : want < h.tick
  · by_cases hspent : r.Spent
    · rw [(back_of_spent hlt hspent).2]
      rfl
    · obtain ⟨s, -, -, hreel⟩ := back_of_not_spent hlt hspent
      rw [hreel]
  · rw [back_of_le (Int.not_lt.1 hlt)]

theorem shots_serve : (serve p blank i want h r).reel.shots = r.shots :=
  (serve_reaches p blank i want h r).shots.trans shots_back

end Search

inductive Spot : Type
  | start
  | frame : Nat → Spot
  | past
  deriving DecidableEq

namespace Spot

variable {r₀ r : Reel α} {h : Head α} {spot : Spot} {p : Pace} {blank : α} {i want : Int}

def tick (r₀ : Reel α) : Spot → Int
  | .start => -1
  | .frame k => (r₀.shots[k]?.map (·.tick)).getD (-1)
  | .past => (r₀.shots.getLast?.map (·.tick)).getD (-1)

def shown (r₀ : Reel α) (blank : α) : Spot → α
  | .start | .past => blank
  | .frame k => (r₀.shots[k]?.map (·.shown)).getD blank

def land (r₀ : Reel α) (want : Int) : Spot :=
  if r₀.first want < r₀.shots.length then .frame (r₀.first want) else .past

def after (r₀ : Reel α) (want : Int) (spot : Spot) : Spot :=
  if spot = .past ∨ want = spot.tick r₀ then spot else land r₀ want

def Stays (r₀ : Reel α) (want : Int) (spot : Spot) : Prop :=
  want = spot.tick r₀ ∨ want < spot.tick r₀ ∧ (spot = .past ∨ r₀.shots = [])

instance (r₀ : Reel α) (want : Int) (spot : Spot) : Decidable (spot.Stays r₀ want) :=
  inferInstanceAs (Decidable (_ ∨ _ ∧ (_ ∨ _)))

inductive Stands (r₀ : Reel α) : Spot → Head α → Reel α → Prop
  | start {h : Head α} : h.tick = -1 → 10 ≤ h.jumpAfter → Stands r₀ .start h ⟨r₀.shots, 0, false⟩
  | frame {h : Head α} {k : Nat} {s : Shot α} : r₀.shots[k]? = some s → h.tick = s.tick →
    10 ≤ h.jumpAfter → Stands r₀ (.frame k) h ⟨r₀.shots, k + 1, false⟩
  | past {h : Head α} {r : Reel α} : h.tick = tick r₀ .past → 10 ≤ h.jumpAfter →
    r.shots = r₀.shots → r.ended = true → Stands r₀ .past h r

def Before (r₀ : Reel α) (want : Int) : Spot → Prop
  | .start => True
  | .frame k => k ≤ r₀.first want
  | .past => False

end Spot

namespace Reel

/-- No jump for a tick lands behind the frame that it is made for. A jump is made from a tick behind
the tenth, if more ticks lie ahead than it costs. -/
def JumpsShort (r : Reel α) (p : Pace) (want : Int) : Prop :=
  ∀ t ∈ r.ticks, 10 < t → p.cost < want - t → r.keyPlace (want * p.stamps) ≤ r.first want

end Reel

namespace Spot

open Search

variable {r₀ r r' : Reel α} {h h' : Head α} {spot : Spot} {p : Pace} {blank : α} {i want : Int}

theorem tick_frame {k : Nat} {s : Shot α} (hk : r₀.shots[k]? = some s) :
    tick r₀ (.frame k) = s.tick := by simp [tick, hk]

theorem Stands.tick_eq (hs : Stands r₀ spot h r) : h.tick = spot.tick r₀ := by
  cases hs with
  | start htick _ => exact htick
  | frame hk htick _ => rw [tick_frame hk, htick]
  | past htick _ _ _ => exact htick

theorem Stands.poised (hs : Stands r₀ spot h r) : 10 ≤ h.jumpAfter := by
  cases hs <;> assumption

theorem Stands.showing (hs : Stands r₀ spot h r) (shown : α) :
    Stands r₀ spot { h with shown } r := by
  cases hs with
  | start htick hpoised => exact .start htick hpoised
  | frame hk htick hpoised => exact .frame hk htick hpoised
  | past htick hpoised hshots hended => exact .past htick hpoised hshots hended

theorem land_of_first {k : Nat} {s : Shot α} (hk : r₀.shots[k]? = some s)
    (hfirst : r₀.first want = k) : land r₀ want = .frame k := by
  obtain ⟨hlt, -⟩ := List.getElem?_eq_some_iff.1 hk
  rw [land, hfirst, if_pos hlt]

theorem land_of_end (hfirst : r₀.first want = r₀.shots.length) : land r₀ want = .past := by
  rw [land, hfirst, if_neg (Nat.lt_irrefl _)]

theorem land_tick (hord : r₀.Ordered) (hin : r₀.first want < r₀.shots.length) :
    land r₀ ((land r₀ want).tick r₀) = land r₀ want := by
  obtain ⟨s, hs⟩ : ∃ s, r₀.shots[r₀.first want]? = some s := ⟨_, getElem?_eq_getElem hin⟩
  have hle : r₀.first s.tick ≤ r₀.first want := (first_le_iff hord hs _).2 (Int.le_refl _)
  obtain ⟨s', hs'⟩ : ∃ s', r₀.shots[r₀.first s.tick]? = some s' :=
    ⟨_, getElem?_eq_getElem (by omega)⟩
  have hwant : want ≤ s.tick := (first_le_iff hord hs _).1 (Nat.le_refl _)
  have htick : s.tick ≤ s'.tick := (first_le_iff hord hs' _).1 (Nat.le_refl _)
  have hge : r₀.first want ≤ r₀.first s.tick :=
    (first_le_iff hord hs' _).2 (Int.le_trans hwant htick)
  rw [land_of_first hs rfl, tick_frame hs, land_of_first hs (by omega)]

theorem Stands.approach (hs : Stands r₀ spot h r) (hord : r₀.Ordered) (hshort : r₀.JumpsShort p want)
    (hbefore : spot.Before r₀ want) (hlt : h.tick < want) :
    ∃ place, (approach p want h r).2 = ⟨r₀.shots, place, false⟩ ∧ place ≤ r₀.first want ∧
      (place = r₀.shots.length → h.tick = tick r₀ .past) := by
  have hpoised := hs.poised
  rw [Search.approach]
  split
  · next hj =>
    rw [jumps_iff] at hj
    -- Past the tenth tick only a frame can have been read, so the reel is not empty.
    cases hs with
    | start htick _ => omega
    | past _ _ _ _ => cases hbefore
    | @frame _ k s hk htick _ =>
      have hmem : s ∈ r₀.shots := mem_of_getElem? hk
      have hplace := hshort s.tick (mem_map_of_mem hmem) (by omega) (by omega)
      refine ⟨_, rfl, hplace, fun heq => ?_⟩
      exact absurd heq (Nat.ne_of_lt (keyPlace_lt (ne_nil_of_mem hmem) _))
  · cases hs with
    | start htick _ =>
      refine ⟨0, rfl, Nat.zero_le _, fun heq => ?_⟩
      simp [htick, tick, length_eq_zero_iff.1 heq.symm]
    | past _ _ _ _ => cases hbefore
    | @frame _ k s hk htick _ =>
      have hle : ¬ r₀.first want ≤ k := by
        rw [first_le_iff hord hk]
        omega
      refine ⟨k + 1, rfl, by omega, fun heq => ?_⟩
      have hlast : r₀.shots.getLast? = some s := by
        rw [getLast?_eq_getElem?, ← heq]
        exact hk
      simp [htick, tick, hlast]

theorem Stands.lands (hr : Reaches p blank want h r h' r') (hs : Stands r₀ spot h r)
    (hord : r₀.Ordered) (hshort : r₀.JumpsShort p want) (hbefore : spot.Before r₀ want)
    (hlt : h.tick < want) :
    Stands r₀ (land r₀ want) h' r' ∧ h'.shown = (land r₀ want).shown r₀ blank := by
  induction hr generalizing spot with
  | here hle => omega
  | @lost h r _ hn =>
    obtain ⟨place, hway, hplace, hend⟩ := hs.approach hord hshort hbefore hlt
    obtain ⟨htick, hlater⟩ := approach_head p want h r
    have hlen : r₀.shots.length ≤ place := by
      rw [hway, next_eq_none_iff] at hn
      simpa using hn
    have hfirst : r₀.first want ≤ r₀.shots.length := findIdx_le_length
    rw [land_of_end (by omega)]
    refine ⟨.past ?_ (Int.le_trans hs.poised hlater) ?_ rfl, rfl⟩
    · exact htick.trans (hend (by omega))
    · rw [hway]
      rfl
  | @read h h' r r₁ r' s _ hn hrest ih =>
    obtain ⟨place, hway, hplace, -⟩ := hs.approach hord hshort hbefore hlt
    have hlater := (approach_head p want h r).2
    rw [hway, next_eq_some_iff] at hn
    obtain ⟨-, hk, rfl⟩ := hn
    replace hk : r₀.shots[place]? = some s := hk
    have hnext : Stands r₀ (.frame place) ((Search.approach p want h r).1.accept s)
      ⟨r₀.shots, place + 1, false⟩ := .frame hk rfl (Int.le_trans hs.poised hlater)
    by_cases hle : want ≤ s.tick
    · obtain ⟨rfl, rfl⟩ := hrest.eq_of_le hle
      have hfirst := (first_le_iff hord hk want).2 hle
      rw [land_of_first hk (by omega)]
      refine ⟨hnext, ?_⟩
      rw [shown, hk]
      rfl
    · exact ih hnext hplace (Int.not_le.1 hle)

theorem first_eq_length (hord : r₀.Ordered) (hlt : tick r₀ .past < want) :
    r₀.first want = r₀.shots.length := by
  refine findIdx_eq_length.2 fun s hs => ?_
  obtain ⟨last, hlast⟩ := Option.ne_none_iff_exists'.1
    (mt getLast?_eq_none_iff.1 (ne_nil_of_mem hs))
  have hle : s.tick ≤ last.tick := by
    obtain ⟨front, hfront⟩ := getLast?_eq_some_iff.1 hlast
    rw [hfront] at hs
    rw [Ordered, hfront] at hord
    rcases mem_append.1 hs with hs | hs
    · exact (pairwise_append.1 hord).2.2 s hs last (.head _)
    · cases mem_singleton.1 hs
      exact Int.le_refl _
  simp only [tick, hlast, Option.map_some, Option.getD_some] at hlt
  simp only [decide_eq_false_iff_not]
  omega

theorem Stands.lands_back (hord : r₀.Ordered) (hshort : r₀.JumpsShort p want) {s : Shot α}
    (hfirst : r₀.shots[0]? = some s) (hpoised : 10 ≤ h.jumpAfter)
    (hr : Reaches p blank want (h.place s) ⟨r₀.shots, 1, false⟩ h' r') :
    Stands r₀ (land r₀ want) h' r' ∧ h'.shown = (land r₀ want).shown r₀ blank := by
  have hs : Stands r₀ (.frame 0) (h.place s) ⟨r₀.shots, 1, false⟩ := .frame hfirst rfl hpoised
  by_cases hle : want ≤ s.tick
  · obtain ⟨rfl, rfl⟩ := hr.eq_of_le hle
    have hzero := (first_le_iff hord hfirst want).2 hle
    rw [land_of_first hfirst (by omega)]
    refine ⟨hs, ?_⟩
    rw [shown, hfirst]
    rfl
  · exact hs.lands hr hord hshort (Nat.zero_le _) (Int.not_le.1 hle)

theorem Stands.stays_iff (hs : Stands r₀ spot h r) : Keeps want h r ↔ spot.Stays r₀ want := by
  rw [Keeps, hs.tick_eq, Stays]
  cases hs <;> simp_all [Spent]

theorem after_eq_land (hpast : spot ≠ .past) (hne : want ≠ spot.tick r₀) :
    spot.after r₀ want = land r₀ want := if_neg (by simp [hpast, hne])

theorem Stands.serve (blank : α) (i : Int) (hs : Stands r₀ spot h r) (hord : r₀.Ordered)
    (hshort : r₀.JumpsShort p want) :
    Stands r₀ (spot.after r₀ want) (serve p blank i want h r).head
        (serve p blank i want h r).reel ∧
      (¬ Keeps want h r →
        (serve p blank i want h r).head.shown = (land r₀ want).shown r₀ blank) := by
  have htick := hs.tick_eq
  have hpoised := hs.poised
  have hreach := serve_reaches p blank i want h r
  rcases Int.lt_trichotomy want h.tick with hlt | heq | hgt
  · by_cases hspent : r.Spent
    · obtain ⟨hhead, hreel⟩ := back_of_spent hlt hspent
      rw [hhead, hreel] at hreach
      obtain ⟨hhead', hreel'⟩ := hreach.eq_of_le (Int.le_of_lt hlt)
      rw [hhead', hreel']
      refine ⟨?_, fun hk => absurd (.inr ⟨hlt, hspent⟩) hk⟩
      cases hs with
      | start hbegin _ =>
        have hnone : r₀.shots = [] := by simpa [Spent] using hspent
        rw [after_eq_land (by simp) (by omega), land_of_end (by simp [first, hnone])]
        exact .past (by simp [hbegin, tick, hnone]) hpoised rfl rfl
      | frame hk _ _ =>
        have hnone : r₀.shots = [] := by simpa [Spent] using hspent
        simp [hnone] at hk
      | past hend _ hshots _ => exact .past hend hpoised hshots rfl
    · obtain ⟨s, hfirst, hhead, hreel⟩ := back_of_not_spent hlt hspent
      have hshots : r.shots = r₀.shots := by
        cases hs <;> first | rfl | assumption
      rw [hhead, hreel, hshots] at hreach
      rw [hshots] at hfirst
      have hpast : spot ≠ .past := by
        rintro rfl
        cases hs with
        | past _ _ _ hended => exact hspent (.inl hended)
      rw [after_eq_land hpast (by omega)]
      have hlands := Stands.lands_back hord hshort hfirst hpoised hreach
      exact ⟨hlands.1, fun _ => hlands.2⟩
  · rw [back_of_le (Int.le_of_eq heq.symm)] at hreach
    obtain ⟨hhead, hreel⟩ := hreach.eq_of_le (Int.le_of_eq heq)
    rw [hhead, hreel, after, if_pos (.inr (heq.trans htick))]
    exact ⟨hs, fun hk => absurd (.inl heq) hk⟩
  · rw [back_of_le (Int.le_of_lt hgt)] at hreach
    by_cases hpast : spot = .past
    · subst hpast
      rw [after, if_pos (.inl rfl), land_of_end (first_eq_length hord (by omega))]
      cases hs with
      | past hend _ hshots hended =>
        obtain ⟨hblank, hstay, hlater, hended'⟩ := hreach.of_ended hended hgt
        exact ⟨.past (hstay.trans hend) (Int.le_trans hpoised hlater)
          (hreach.shots.trans hshots) hended', fun _ => hblank⟩
    · have hbefore : spot.Before r₀ want := by
        cases hs with
        | start _ _ => trivial
        | @frame _ k s hk hread _ =>
          have hle : ¬ r₀.first want ≤ k := by
            rw [first_le_iff hord hk]
            omega
          exact Nat.le_of_not_le hle
        | past _ _ _ _ => exact absurd rfl hpast
      rw [after_eq_land hpast (by omega)]
      have hlands := hs.lands hreach hord hshort hbefore hgt
      exact ⟨hlands.1, fun _ => hlands.2⟩

end Spot

end Jumpcut
