import Jumpcut.Text.Pattern
import Mathlib.Logic.Relation
import Mathlib.Order.Nat

/-!
How patterns match. Whatever a match finds lies on a way through the pattern (`Pattern.Leads`), and
such a way goes forward in the text. A greedy repetition of a set of characters takes the longest run
that lets the rest of the pattern match.
-/
namespace Jumpcut

open CharSet
open List hiding set

namespace Place

def Within (text : List Char) (s : Place) : Prop := s.rest = text.drop s.pos

def step (s : Place) (c : Char) : Place :=
  { s with pos := s.pos + 1, prev := some c, rest := s.rest.tail }

def forward (s : Place) : List Char → Place
  | [] => s
  | c :: cs => (s.step c).forward cs

theorem Within.step {text : List Char} {s : Place} (h : s.Within text) (c : Char) :
    (s.step c).Within text := by
  rw [Within] at h
  rw [Within, Place.step, h, tail_drop]

@[simp] theorem pos_forward (s : Place) (cs : List Char) :
    (s.forward cs).pos = s.pos + cs.length := by
  induction cs generalizing s with
  | nil => rfl
  | cons c cs ih =>
    rw [forward, ih, length_cons]
    simp only [step]
    omega

@[simp] theorem rest_forward (s : Place) (cs : List Char) :
    (s.forward cs).rest = s.rest.drop cs.length := by
  induction cs generalizing s with
  | nil => rfl
  | cons c cs ih => rw [forward, ih, step, length_cons, drop_tail]

@[simp] theorem groups_forward (s : Place) (cs : List Char) : (s.forward cs).groups = s.groups := by
  induction cs generalizing s with
  | nil => rfl
  | cons c cs ih => rw [forward, ih, step]

end Place

namespace Pattern

variable {α : Type} {fold : Bool} {most : Option Nat} {s t : Place} {p : Pattern}
  {text cs ds rest : List Char} {lo : Nat} {m : Found} {c : Char}

def Leads (fold : Bool) : Pattern → Place → Place → Prop
  | .empty, s, t => t = s
  | .one set, s, t => ∃ c cs, s.rest = c :: cs ∧ set.has fold c ∧ t = s.step c
  | .front anyLine, s, t => (s.prev = none ∨ anyLine ∧ s.prev = some '\n') ∧ t = s
  | .back anyLine, s, t =>
    (s.rest = [] ∨ s.rest = ['\n'] ∨ anyLine ∧ s.rest.head? = some '\n') ∧ t = s
  | .seq p q, s, u => ∃ t, Leads fold p s t ∧ Leads fold q t u
  | .alt p q, s, t => Leads fold p s t ∨ Leads fold q s t
  | .many _ _ _ p, s, t => Relation.ReflTransGen (Leads fold p) s t
  | .group n p, s, u =>
    ∃ t, Leads fold p s t ∧ u = { t with groups := (n, ⟨s.pos, t.pos⟩) :: t.groups }

theorem again_leads {R : Place → Place → Prop} {step : Place → (Place → Option α) → Option α}
    (hstep : ∀ s k r, step s k = some r → ∃ t, R s t ∧ k t = some r) {greedy : Bool}
    {fuel least : Nat} {k : Place → Option α} {r : α}
    (h : again step greedy fuel least most s k = some r) :
    ∃ t, Relation.ReflTransGen R s t ∧ k t = some r := by
  induction fuel generalizing least most s with
  | zero => exact ⟨s, .refl, h⟩
  | succ fuel ih =>
    cases least with
    | succ least =>
      obtain ⟨t, hst, ht⟩ := hstep _ _ _ h
      obtain ⟨u, htu, hu⟩ := ih ht
      exact ⟨u, .head hst htu, hu⟩
    | zero =>
      have hmore {m : Option Nat} (h : (step s fun s' =>
          if s'.pos = s.pos then k s' else again step greedy fuel 0 m s' k) = some r) :
          ∃ t, Relation.ReflTransGen R s t ∧ k t = some r := by
        obtain ⟨t, hst, ht⟩ := hstep _ _ _ h
        split at ht
        · exact ⟨t, .single hst, ht⟩
        · obtain ⟨u, htu, hu⟩ := ih ht
          exact ⟨u, .head hst htu, hu⟩
      rw [again] at h
      split at h
      · exact ⟨s, .refl, h⟩
      · dsimp only at h
        cases greedy with
        | true =>
          rw [if_pos rfl] at h
          split at h
          · next hm => exact hmore (h ▸ hm)
          · exact ⟨s, .refl, h⟩
        | false =>
          rw [if_neg Bool.false_ne_true] at h
          split at h
          · next hk => exact ⟨s, .refl, h ▸ hk⟩
          · exact hmore h

theorem run_leads {k : Place → Option α} {r : α} (h : p.run fold s k = some r) :
    ∃ t, p.Leads fold s t ∧ k t = some r := by
  induction p generalizing s k r with
  | empty => exact ⟨s, rfl, h⟩
  | one set =>
    rw [run] at h
    split at h
    · next c cs hrest =>
      split at h
      · next hset => exact ⟨s.step c, ⟨c, cs, hrest, hset, rfl⟩, by rwa [Place.step, hrest]⟩
      · cases h
    · cases h
  | front anyLine =>
    rw [run] at h
    split at h
    · next hfront => exact ⟨s, ⟨by simpa using hfront, rfl⟩, h⟩
    · cases h
  | back anyLine =>
    rw [run] at h
    split at h
    · next hback => exact ⟨s, ⟨by simpa [or_assoc] using hback, rfl⟩, h⟩
    · cases h
  | seq p q ihp ihq =>
    obtain ⟨t, hst, ht⟩ := ihp h
    obtain ⟨u, htu, hu⟩ := ihq ht
    exact ⟨u, ⟨t, hst, htu⟩, hu⟩
  | alt p q ihp ihq =>
    rw [run] at h
    split at h
    · next hp =>
      obtain ⟨t, hst, ht⟩ := ihp hp
      exact ⟨t, .inl hst, h ▸ ht⟩
    · obtain ⟨t, hst, ht⟩ := ihq h
      exact ⟨t, .inr hst, ht⟩
  | many greedy least most p ih =>
    rw [run] at h
    exact again_leads (fun s k r hr => ih hr) h
  | group n p ih =>
    obtain ⟨t, hst, ht⟩ := ih h
    exact ⟨_, ⟨t, hst, rfl⟩, ht⟩

theorem Leads.within (h : p.Leads fold s t) (hs : s.Within text) :
    t.Within text ∧ s.pos ≤ t.pos := by
  induction p generalizing s t with
  | empty =>
    cases h
    exact ⟨hs, le_rfl⟩
  | one set =>
    obtain ⟨c, cs, -, -, rfl⟩ := h
    exact ⟨hs.step c, Nat.le_succ _⟩
  | front | back =>
    obtain ⟨-, rfl⟩ := h
    exact ⟨hs, le_rfl⟩
  | seq p q ihp ihq =>
    obtain ⟨u, hsu, hut⟩ := h
    obtain ⟨hu, hle⟩ := ihp hsu hs
    obtain ⟨ht, hle'⟩ := ihq hut hu
    exact ⟨ht, hle.trans hle'⟩
  | alt p q ihp ihq =>
    rcases h with h | h
    · exact ihp h hs
    · exact ihq h hs
  | many greedy least most p ih =>
    induction h with
    | refl => exact ⟨hs, le_rfl⟩
    | tail _ hlast ihrun =>
      obtain ⟨hu, hle⟩ := ihrun
      obtain ⟨ht, hle'⟩ := ih hlast hu
      exact ⟨ht, hle.trans hle'⟩
  | group n p ih =>
    obtain ⟨u, hsu, rfl⟩ := h
    obtain ⟨hu, hle⟩ := ih hsu hs
    exact ⟨hu, hle⟩

def isPlain : Pattern → Bool
  | .seq p q | .alt p q => p.isPlain && q.isPlain
  | .many _ _ _ p => p.isPlain
  | .group _ _ => false
  | _ => true

theorem Leads.groups_eq (hp : p.isPlain) (h : p.Leads fold s t) : t.groups = s.groups := by
  induction p generalizing s t with
  | empty =>
    cases h
    rfl
  | one set =>
    obtain ⟨c, cs, -, -, rfl⟩ := h
    rfl
  | front | back =>
    obtain ⟨-, rfl⟩ := h
    rfl
  | seq p q ihp ihq =>
    rw [isPlain, Bool.and_eq_true] at hp
    obtain ⟨u, hsu, hut⟩ := h
    exact (ihq hp.2 hut).trans (ihp hp.1 hsu)
  | alt p q ihp ihq =>
    rw [isPlain, Bool.and_eq_true] at hp
    rcases h with h | h
    · exact ihp hp.1 h
    · exact ihq hp.2 h
  | many greedy least most p ih =>
    induction h with
    | refl => rfl
    | tail _ hlast ihrun => exact (ih hp hlast).trans ihrun
  | group => cases hp

theorem Leads.group_spec {n : Nat} (hp : p.isPlain) (hs : s.Within text)
    (h : (group n p).Leads fold s t) :
    t.groups = (n, ⟨s.pos, t.pos⟩) :: s.groups ∧ t.Within text ∧ s.pos ≤ t.pos := by
  obtain ⟨ht, hle⟩ := h.within hs
  obtain ⟨u, hsu, rfl⟩ := h
  exact ⟨by rw [hsu.groups_eq hp], ht, hle⟩

/-- The match was found on a way through the pattern that begins at `lo` or after it. -/
def FindsFrom (fold : Bool) (p : Pattern) (text : List Char) (lo : Nat) (m : Found) : Prop :=
  ∃ s t : Place, s.Within text ∧ s.groups = [] ∧ lo ≤ s.pos ∧ p.Leads fold s t ∧
    m = ⟨⟨s.pos, t.pos⟩, t.groups⟩

theorem FindsFrom.mono {lo' : Nat} (h : p.FindsFrom fold text lo m) (hlo : lo' ≤ lo) :
    p.FindsFrom fold text lo' m := by
  obtain ⟨s, t, hs, hgroups, hle, hm⟩ := h
  exact ⟨s, t, hs, hgroups, hlo.trans hle, hm⟩

theorem FindsFrom.le_start (h : p.FindsFrom fold text lo m) : lo ≤ m.span.start := by
  obtain ⟨s, t, -, -, hlo, -, rfl⟩ := h
  exact hlo

theorem at?_finds (hs : s.Within text) (h : p.at? fold s = some m) :
    p.FindsFrom fold text s.pos m := by
  obtain ⟨t, hst, ht⟩ := run_leads h
  exact ⟨{ s with groups := [] }, t, hs, rfl, le_rfl, hst, (Option.some.inj ht).symm⟩

theorem searchFrom_finds {pos : Nat} {prev : Option Char} (hcs : cs = text.drop pos)
    (h : searchFrom fold p pos prev cs = some m) : p.FindsFrom fold text pos m := by
  induction cs generalizing pos prev with
  | nil => exact at?_finds (s := ⟨pos, prev, [], []⟩) hcs h
  | cons c cs ih =>
    have hs : Place.Within text ⟨pos, prev, c :: cs, []⟩ := hcs
    rw [searchFrom] at h
    split at h
    · next hm => exact at?_finds hs (h ▸ hm)
    · exact (ih (hs.step c) h).mono (Nat.le_succ _)

def FindsAll (fold : Bool) (p : Pattern) (text : List Char) : Nat → List Found → Prop
  | _, [] => True
  | lo, m :: ms => p.FindsFrom fold text lo m ∧ FindsAll fold p text m.span.stop ms

theorem findFrom_finds (p : Pattern) (text : List Char) (fuel : Nat) {pos : Nat} (hlo : lo ≤ pos) :
    p.FindsAll fold text lo (findFrom fold p text fuel pos) := by
  induction fuel generalizing lo pos with
  | zero => trivial
  | succ fuel ih =>
    rw [findFrom]
    split
    · trivial
    · next m hm =>
      refine ⟨(searchFrom_finds rfl hm).mono hlo, ih ?_⟩
      split
      · exact Nat.le_succ _
      · exact le_rfl

theorem findAll_finds (p : Pattern) (text : List Char) :
    p.FindsAll fold text 0 (p.findAll fold text) :=
  findFrom_finds p text _ le_rfl

/-- The first result of `k` at the places that a run of characters leads to, from its end backward. -/
def farthest (k : Place → Option α) (s : Place) : List Char → Option α
  | [] => k s
  | c :: cs => (farthest k (s.step c) cs).or (k s)

theorem farthest_of_some {k : Place → Option α} {r : α} (h : k (s.forward cs) = some r) :
    farthest k s cs = some r := by
  induction cs generalizing s with
  | nil => exact h
  | cons c cs ih => rw [farthest, ih h, Option.some_or]

theorem run_seq (p q : Pattern) (s : Place) (k : Place → Option α) :
    run fold (.seq p q) s k = run fold p s fun t => run fold q t k := rfl

theorem run_group (n : Nat) (p : Pattern) (s : Place) (k : Place → Option α) :
    run fold (.group n p) s k =
      run fold p s fun t => k { t with groups := (n, ⟨s.pos, t.pos⟩) :: t.groups } := rfl

theorem run_one_nil (set : CharSet) (hrest : s.rest = []) (k : Place → Option α) :
    run fold (.one set) s k = none := by
  rw [run, hrest]

theorem run_one_cons (set : CharSet) (hrest : s.rest = c :: cs) (k : Place → Option α) :
    run fold (.one set) s k = if set.has fold c then k (s.step c) else none := by
  rw [run, Place.step, hrest]
  rfl

theorem again_greedy (step : Place → (Place → Option α) → Option α) (fuel : Nat)
    (hmost : most ≠ some 0) (s : Place) (k : Place → Option α) :
    again step true (fuel + 1) 0 most s k =
      (step s fun s' =>
        if s'.pos = s.pos then k s' else again step true fuel 0 (most.map (· - 1)) s' k).or (k s) := by
  rw [again, if_neg hmost, if_pos rfl]
  dsimp only
  generalize step s _ = x
  cases x <;> rfl

theorem again_one (set : CharSet) {fuel : Nat} (hfuel : s.rest.length < fuel)
    (k : Place → Option α) :
    again (fun s k => run fold (.one set) s k) true fuel 0 none s k =
      farthest k s (s.rest.takeWhile (set.has fold)) := by
  induction fuel generalizing s with
  | zero => omega
  | succ fuel ih =>
    rw [again_greedy _ _ (by simp), Option.map_none]
    cases hrest : s.rest with
    | nil => rw [run_one_nil set hrest, Option.none_or, takeWhile_nil, farthest]
    | cons c cs =>
      rw [run_one_cons set hrest, takeWhile_cons]
      split
      · have htail : (s.step c).rest = cs := by rw [Place.step, hrest, tail_cons]
        have hmoved : (s.step c).pos ≠ s.pos := Nat.succ_ne_self s.pos
        rw [hrest, length_cons] at hfuel
        rw [if_neg hmoved, ih (by rw [htail]; omega), htail, farthest]
      · rw [Option.none_or, farthest]

theorem run_plus_one (set : CharSet) (hrest : s.rest = c :: cs) (k : Place → Option α) :
    run fold (plus (.one set)) s k =
      if set.has fold c then farthest k (s.step c) (cs.takeWhile (set.has fold)) else none := by
  have htail : (s.step c).rest = cs := by rw [Place.step, hrest, tail_cons]
  rw [plus, run, again, run_one_cons set hrest]
  split
  · rw [Option.map_none, again_one set (by rw [htail, hrest, length_cons]; omega), htail]
  · rfl

theorem takeWhile_append {set : CharSet} (hstop : ∀ c ∈ rest.head?, ¬ set.has fold c)
    (hds : ∀ c ∈ ds, set.has fold c) : (ds ++ rest).takeWhile (set.has fold) = ds := by
  rw [takeWhile_append_of_pos hds]
  cases rest with
  | nil => rw [takeWhile_nil, append_nil]
  | cons c cs => rw [takeWhile_cons_of_neg (hstop c rfl), append_nil]

theorem run_plus_one_of_some {set : CharSet} (hrest : s.rest = ds ++ rest) (hne : ds ≠ [])
    (hds : ∀ c ∈ ds, set.has fold c) (hstop : ∀ c ∈ rest.head?, ¬ set.has fold c)
    {k : Place → Option α} {r : α} (hk : k (s.forward ds) = some r) :
    run fold (plus (.one set)) s k = some r := by
  obtain ⟨c, cs, rfl⟩ := exists_cons_of_ne_nil hne
  rw [cons_append] at hrest
  rw [run_plus_one set hrest, if_pos (hds c (.head _)),
    takeWhile_append hstop fun d hd => hds d (.tail _ hd)]
  exact farthest_of_some hk

theorem run_optional_one (set : CharSet) (s : Place) (k : Place → Option α) :
    run fold (.many true 0 (some 1) (.one set)) s k = (run fold (.one set) s k).or (k s) := by
  change again (fun s k => run fold (.one set) s k) true (s.rest.length + 1) 0 (some 1) s k = _
  rw [again_greedy _ _ (by simp)]
  cases hrest : s.rest with
  | nil => rw [run_one_nil set hrest, run_one_nil set hrest]
  | cons c cs =>
    have hmoved : (s.step c).pos ≠ s.pos := Nat.succ_ne_self s.pos
    have hlast :
        again (fun s k => run fold (.one set) s k) true (cs.length + 1) 0 (some 0) (s.step c) k =
        k (s.step c) := by
      rw [again, if_pos rfl]
    rw [run_one_cons set hrest, run_one_cons set hrest]
    simp only [if_neg hmoved, length_cons, Option.map_some, Nat.sub_self, hlast]

theorem has_digit (c : Char) : has false ⟨false, [.digit]⟩ c = Text.isDigit c := by
  simp [has, CharItem.has]

theorem has_single (c d : Char) : has false ⟨false, [.single d]⟩ c = decide (c = d) := by
  simp [has, CharItem.has, CharItem.same]

theorem run_lit (hrest : s.rest = c :: cs) (k : Place → Option α) :
    run false (lit c) s k = k (s.step c) := by
  rw [lit, run_one_cons _ hrest, has_single, decide_eq_true rfl, if_pos rfl]

end Pattern

theorem Span.of_middle (as bs cs : List Char) {text : List Char} {s : Span}
    (htext : text = as ++ (bs ++ cs)) (hstart : s.start = as.length)
    (hstop : s.stop = as.length + bs.length) : s.of text = bs := by
  simp [Span.of, htext, hstart, hstop]

theorem Span.of_append_drop {a b : Nat} (h : a ≤ b) (text : List Char) :
    Span.of ⟨a, b⟩ text ++ text.drop b = text.drop a := by
  have hdrop : text.drop b = (text.drop a).drop (b - a) := by
    rw [drop_drop, Nat.add_sub_cancel' h]
  rw [Span.of, hdrop, take_append_drop]

end Jumpcut
