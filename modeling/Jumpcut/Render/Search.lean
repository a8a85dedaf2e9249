import Jumpcut.Media.Basic
import Jumpcut.Number.Basic

/-!
Finding the frames of a video track that a timeline asks for. A reel is read frame by frame. Going
back starts it over; going far ahead jumps to a key frame if that seems worth it. The search ends
because a jump is only made from a tick behind all earlier ones. It never looks at what a frame
shows, so that can be anything.
-/
namespace Jumpcut

structure Shown where
  picture : Picture
  format : String
  deriving DecidableEq, Repr

structure Shot (α : Type) where
  tick : Int
  shown : α
  key : Bool
  pts : Int
  deriving DecidableEq, Repr

/-- A track that is read frame by frame. Once its end was reached nothing more is read. -/
structure Reel (α : Type) where
  shots : List (Shot α)
  place : Nat
  ended : Bool
  deriving DecidableEq, Repr

namespace Reel

variable {α : Type}

def ofTrack (tb : Rat) (v : VideoTrack) : Except Fault (Reel Shown) := do
  let shots ← v.frames.mapM fun f => do
    let tick ← (← Number.mul (.float f.time) (.frac tb)).round
    return (⟨tick, ⟨f.picture, v.pixelFormat⟩, f.key, f.pts⟩ : Shot Shown)
  return ⟨shots, 0, false⟩

def next (r : Reel α) : Option (Shot α × Reel α) :=
  if r.ended then none
  else (r.shots[r.place]?).map fun s => (s, { r with place := r.place + 1 })

def stopped (r : Reel α) : Reel α := { r with ended := true }

def rewound (r : Reel α) : Reel α := { r with place := 0 }

def keyPlace (r : Reel α) (stamp : Int) : Nat :=
  ((r.shots.zipIdx.filter fun s => s.1.key && s.1.pts ≤ stamp).getLast?.map (·.2)).getD 0

def soughtTo (r : Reel α) (stamp : Int) : Reel α := { r with place := r.keyPlace stamp }

def ticks (r : Reel α) : List Int := r.shots.map (·.tick)

def left (r : Reel α) : Nat := r.shots.length - r.place

theorem next_eq_some {r r' : Reel α} {s : Shot α} (h : r.next = some (s, r')) :
    r'.shots = r.shots ∧ s ∈ r.shots ∧ r'.left < r.left := by
  unfold next at h
  split at h
  · cases h
  · obtain ⟨t, ht, he⟩ := Option.map_eq_some_iff.mp h
    cases he
    obtain ⟨bound, _⟩ := List.getElem?_eq_some_iff.mp ht
    exact ⟨rfl, List.mem_of_getElem? ht, by simp only [left]; omega⟩

end Reel

inductive SearchEvent : Type
  | note : String → SearchEvent
  | sought : Int → SearchEvent
  deriving DecidableEq, Repr

/-- How far ahead a frame has to be for a jump, and how many time stamps a tick takes. -/
structure Pace where
  cost : Nat
  stamps : Int
  deriving DecidableEq, Repr

/-- What is shown and where the search stands. All sources share it. -/
structure Head (α : Type) where
  shown : α
  (tick jumpAfter : Int)
  jumpedFrom : Option Int
  saved : Int
  deriving DecidableEq, Repr

namespace Head

variable {α : Type}

def begin (shown : α) : Head α := ⟨shown, -1, 10, none, 0⟩

def place (h : Head α) (s : Shot α) : Head α := { h with shown := s.shown, tick := s.tick }

def accept (h : Head α) (s : Shot α) : Head α :=
  { h.place s with jumpedFrom := none, saved := h.saved + (h.jumpedFrom.map (s.tick - ·)).getD 0 }

def acceptNotes (h : Head α) (s : Shot α) : List SearchEvent :=
  (h.jumpedFrom.toList.map fun t =>
    .note ("Skipped " ++ toString (s.tick - t) ++ " frame indexes")) ++
  (if s.key then [.note ("Keyframe " ++ toString s.tick ++ " " ++ toString s.pts)] else [])

def jumps (h : Head α) (p : Pace) (want : Int) : Bool :=
  decide (p.cost < want - h.tick) && decide (h.jumpAfter < h.tick)

def jumped (h : Head α) (p : Pace) : Head α :=
  { h with jumpAfter := h.tick + p.cost / 2, jumpedFrom := some h.tick }

def seekNote (h : Head α) (want : Int) : SearchEvent :=
  .note ("Seek: " ++ toString h.tick ++ " -> " ++ toString want)

def countAfter (l : List Int) (t : Int) : Nat := l.countP (t < ·)

/-- How many ticks of a reel a jump could still be made from. -/
def chances (h : Head α) (r : Reel α) : Nat :=
  countAfter r.ticks h.jumpAfter + if h.tick ∈ r.ticks then 0 else 1

theorem countAfter_le {a b : Int} (l : List Int) (h : a ≤ b) : countAfter l b ≤ countAfter l a :=
  List.countP_mono_left fun x _ hx => by
    simp only [decide_eq_true_eq] at hx ⊢
    omega

theorem countAfter_lt {l : List Int} {a b t : Int} (ht : t ∈ l) (hat : a < t) (htb : t ≤ b) :
    countAfter l b < countAfter l a := by
  induction l with
  | nil => cases ht
  | cons x xs ih =>
    have rest := countAfter_le xs (show a ≤ b by omega)
    simp only [countAfter, List.countP_cons, decide_eq_true_eq] at rest ih ⊢
    rcases List.mem_cons.mp ht with rfl | hx
    · simp only [hat, show ¬ b < t by omega, ↓reduceIte]
      omega
    · have := ih hx
      split <;> split <;> omega

theorem chances_accept_le {h : Head α} {r r' : Reel α} {s : Shot α} (hn : r.next = some (s, r')) :
    (h.accept s).chances r' ≤ h.chances r := by
  obtain ⟨shots, mem, _⟩ := Reel.next_eq_some hn
  have ticks : r'.ticks = r.ticks := by simp only [Reel.ticks, shots]
  have here : s.tick ∈ r.ticks := List.mem_map_of_mem mem
  simp only [chances, ticks, accept, place, here, ↓reduceIte]
  omega

theorem chances_jumped_lt {h : Head α} {p : Pace} {r r' : Reel α} {s : Shot α} {place : Nat}
    (hj : h.jumpAfter < h.tick) (hn : ({ r with place } : Reel α).next = some (s, r')) :
    ((h.jumped p).accept s).chances r' < h.chances r := by
  obtain ⟨shots, mem, _⟩ := Reel.next_eq_some hn
  have ticks : r'.ticks = r.ticks := by simp only [Reel.ticks, shots]
  have here : s.tick ∈ r.ticks := List.mem_map_of_mem mem
  have half : (0 : Int) ≤ (p.cost : Int) / 2 := by omega
  simp only [chances, ticks, accept, Head.place, jumped, here, ↓reduceIte]
  by_cases hm : h.tick ∈ r.ticks
  · have := countAfter_lt hm hj (show h.tick ≤ h.tick + (p.cost : Int) / 2 by omega)
    simp only [hm, ↓reduceIte]
    omega
  · have := countAfter_le r.ticks (show h.jumpAfter ≤ h.tick + (p.cost : Int) / 2 by omega)
    simp only [hm, ↓reduceIte]
    omega

/-- How long a search can still go on: after each jump the whole reel may be read. -/
def room (h : Head α) (r : Reel α) : Nat := h.chances r * (r.shots.length + 1) + r.left

theorem room_accept_lt {h : Head α} {r r' : Reel α} {s : Shot α} (hn : r.next = some (s, r')) :
    (h.accept s).room r' < h.room r := by
  obtain ⟨shots, _, shorter⟩ := Reel.next_eq_some hn
  have fewer := Nat.mul_le_mul_right (r.shots.length + 1) (chances_accept_le (h := h) hn)
  simp only [room, shots]
  omega

theorem room_jumped_lt {h : Head α} {p : Pace} {r r' : Reel α} {s : Shot α} {place : Nat}
    (hj : h.jumpAfter < h.tick) (hn : ({ r with place } : Reel α).next = some (s, r')) :
    ((h.jumped p).accept s).room r' < h.room r := by
  obtain ⟨shots, _, _⟩ := Reel.next_eq_some hn
  have whole : r'.left ≤ r.shots.length := by
    simp only [Reel.left, shots]
    omega
  have fewer := Nat.mul_le_mul_right (r.shots.length + 1) (chances_jumped_lt (p := p) hj hn)
  rw [Nat.succ_mul] at fewer
  simp only [room, shots]
  omega

end Head

structure Served (α : Type) where
  head : Head α
  reel : Reel α
  events : List SearchEvent

namespace Search

variable {α : Type}

def after (es : List SearchEvent) (f : Served α) : Served α := { f with events := es ++ f.events }

def missed (blank : α) (index : Int) (h : Head α) (r : Reel α) : Served α :=
  ⟨{ h with shown := blank }, r.stopped,
    [.note ("No source frame at index=" ++ toString index ++ ". Using null frame")]⟩

def forward (p : Pace) (blank : α) (index want : Int) (h : Head α) (r : Reel α) : Served α :=
  if want ≤ h.tick then ⟨h, r, []⟩
  else if _ : h.jumps p want then
    let stamp := want * p.stamps
    let events := [h.seekNote want, .sought stamp]
    match _ : (r.soughtTo stamp).next with
    | none => after events (missed blank index (h.jumped p) (r.soughtTo stamp))
    | some (s, r') =>
      after (events ++ (h.jumped p).acceptNotes s)
        (forward p blank index want ((h.jumped p).accept s) r')
  else
    match _ : r.next with
    | none => missed blank index h r
    | some (s, r') => after (h.acceptNotes s) (forward p blank index want (h.accept s) r')
termination_by h.room r
decreasing_by
  · next hjumps hnext =>
    simp only [Head.jumps, Bool.and_eq_true, decide_eq_true_eq] at hjumps
    exact Head.room_jumped_lt hjumps.2 hnext
  · next hnext => exact Head.room_accept_lt hnext

def back (want : Int) (h : Head α) (r : Reel α) : Served α :=
  if want < h.tick then
    let events := [h.seekNote 0, .sought 0]
    match r.rewound.next with
    | none => ⟨h, r.rewound.stopped, events⟩
    | some (s, r') => ⟨h.place s, r', events⟩
  else ⟨h, r, []⟩

def serve (p : Pace) (blank : α) (index want : Int) (h : Head α) (r : Reel α) : Served α :=
  let b := back want h r
  after b.events (forward p blank index want b.head b.reel)

end Search

end Jumpcut
