import Jumpcut.Proofs.OriginLaws

namespace Jumpcut

open Outcome List Sample

namespace Wanted

def drawing? : Wanted → Option Drawing
  | .frame _ _ => none
  | .drawing d => some d

def drawings (ws : List Wanted) : List Drawing := ws.filterMap drawing?

end Wanted

def VisualItem.active? (i : Int) : VisualItem → Option Drawing
  | .clip _ => none
  | .drawing d => if d.start ≤ i ∧ i < d.start + d.dur then some d else none

def Timeline.activeAt (t : Timeline) (i : Int) : List Drawing :=
  t.v.flatten.filterMap (·.active? i)

theorem VisualItem.active?_of_wantedAt {i : Int} {v : VisualItem} {w : Option Wanted}
    (h : v.wantedAt i = .ok w) : w.bind Wanted.drawing? = v.active? i := by
  cases v with
  | drawing d =>
    cases h
    rw [active?]
    split <;> rfl
  | clip c =>
    simp only [wantedAt] at h
    split at h
    · cases pure_eq_ok.1 h
      rfl
    · simp only [bind_eq_ok] at h
      obtain ⟨-, -, n, -, h⟩ := h
      split at h
      · cases pure_eq_ok.1 h
        rfl
      · simp only [bind_eq_ok, pure_eq_ok] at h
        obtain ⟨_, -, -, -, rfl⟩ := h
        rfl

theorem Timeline.drawings_wantedAt {t : Timeline} {i : Int} {ws : List Wanted}
    (h : t.wantedAt i = .ok ws) : Wanted.drawings ws = t.activeAt i := by
  obtain ⟨found, hfound, hws⟩ := bind_eq_ok.1 h
  cases pure_eq_ok.1 hws
  rw [Wanted.drawings, filterMap_filterMap, activeAt]
  have hitems := mapM_eq_ok.1 hfound
  generalize t.v.flatten = items at hitems ⊢
  clear h hws hfound
  induction hitems with
  | nil => rfl
  | cons hitem _ ih =>
    have hactive := VisualItem.active?_of_wantedAt hitem
    simp only [filterMap_cons, id, hactive] at ih ⊢
    rw [ih]

namespace VideoWork

open Wanted

variable {g g' : VideoWork Makeup} {decks : List (String × Deck Shown)} {x : Wanted}
  {ws below above : List Wanted} {label : String} {want : Int}

def Stale (g : VideoWork Makeup) (ws : List Wanted) : Prop :=
  ∀ below label want above m, ws = below ++ .frame (.text label) want :: above →
    g.compose below = .ok m → m.Keeps label want

/-- The last new frame is brought behind the one part of what is wanted and before the other. -/
def Renewed (g : VideoWork Makeup) (ws below above : List Wanted) : Prop :=
  ∃ label want m m', ws = below ++ .frame (.text label) want :: above ∧ g.compose below = .ok m ∧
    ¬ m.Keeps label want ∧ m.add (.frame (.text label) want) = .ok m' ∧ m'.Stale above

theorem Stale.head_keeps (h : g.Stale (.frame (.text label) want :: ws)) : g.Keeps label want :=
  h [] label want ws g rfl rfl

theorem Stale.tail (h : g.Stale (x :: ws)) (hadd : g.add x = .ok g') : g'.Stale ws := by
  intro below label want above m hsplit hm
  refine h (x :: below) label want above m (by rw [hsplit, cons_append]) ?_
  exact compose_cons_eq_ok.2 ⟨g', hadd, hm⟩

theorem Stale.drawn_compose (h : g.Stale ws) (hws : g.compose ws = .ok g') :
    g'.head.shown.drawn = g.head.shown.drawn ++ drawings ws := by
  induction ws generalizing g with
  | nil =>
    cases hws
    exact (append_nil _).symm
  | cons x ws ih =>
    obtain ⟨g₁, hadd, hrest⟩ := compose_cons_eq_ok.1 hws
    rw [ih (h.tail hadd) hrest]
    cases x with
    | drawing d =>
      cases hadd
      exact append_assoc _ [d] _
    | frame src want =>
      obtain ⟨label, _, rfl, -, -, ⟨-, hhead⟩ | ⟨hnew, -⟩⟩ := add_frame hadd
      · rw [hhead]
        rfl
      · exact absurd h.head_keeps hnew

theorem Stale.cons {g₁ : VideoWork Makeup}
    (hx : ∀ label want, x = .frame (.text label) want → g.Keeps label want)
    (hadd : g.add x = .ok g₁) (h : g₁.Stale ws) : g.Stale (x :: ws) := by
  intro below label want above m hsplit hm
  cases below with
  | nil =>
    cases hm
    exact hx label want (cons.inj hsplit).1
  | cons y below =>
    rw [cons_append, cons.injEq] at hsplit
    obtain ⟨rfl, hsplit⟩ := hsplit
    obtain ⟨g₂, hadd', hm⟩ := compose_cons_eq_ok.1 hm
    cases hadd.symm.trans hadd'
    exact h below label want above m hsplit hm

theorem Renewed.not_stale (h : g.Renewed ws below above) : ¬ g.Stale ws := by
  obtain ⟨label, want, m, m', rfl, hm, hreads, -⟩ := h
  exact fun hstale => hreads (hstale below label want above m rfl hm)

theorem stale_or_renewed (hws : g.compose ws = .ok g') :
    g.Stale ws ∨ ∃ below above, g.Renewed ws below above := by
  induction ws generalizing g with
  | nil =>
    refine .inl fun below label want above m hsplit => ?_
    simp at hsplit
  | cons x ws ih =>
    obtain ⟨g₁, hadd, hrest⟩ := compose_cons_eq_ok.1 hws
    rcases ih hrest with hstale | ⟨below, above, label, want, m, m', rfl, hm, hnew⟩
    · by_cases hx : ∀ label want, x = .frame (.text label) want → g.Keeps label want
      · exact .inl (hstale.cons hx hadd)
      · simp only [not_forall] at hx
        obtain ⟨label, want, rfl, hnew⟩ := hx
        exact .inr ⟨[], ws, label, want, g, g₁, rfl, rfl, hnew, hadd, hstale⟩
    · exact .inr ⟨x :: below, above, label, want, m, m', rfl,
        compose_cons_eq_ok.2 ⟨g₁, hadd, hm⟩, hnew⟩

theorem Genuine.drawn_add (h : Genuine decks g) (hadd : g.add (.frame (.text label) want) = .ok g')
    (hnew : ¬ g.Keeps label want) : g'.head.shown.drawn = [] := by
  obtain ⟨_, r, hlabel, hr, -, ⟨hkeeps, -⟩ | ⟨-, ⟨s, hs, hshown⟩ | hblank⟩⟩ := add_frame hadd
  · cases hlabel
    exact absurd hkeeps hnew
  · obtain ⟨_, y, -, -, hfresh⟩ := h.exists_shot hr hs
    rw [hshown, hfresh]
    rfl
  · rw [hblank]
    rfl

theorem Genuine.drawn_of_renewed (h : Genuine decks g) (hnew : g.Renewed ws below above)
    (hws : g.compose ws = .ok g') :
    drawings ws = drawings below ++ drawings above ∧ g'.head.shown.drawn = drawings above := by
  obtain ⟨label, want, m, m', rfl, hm, hreads, hadd, hstale⟩ := hnew
  constructor
  · rw [drawings, filterMap_append]
    rfl
  · rw [VideoWork.compose, foldlM_append, bind_eq_ok] at hws
    obtain ⟨_, hm₁, hrest⟩ := hws
    cases hm.symm.trans hm₁
    obtain ⟨_, hadd₁, habove⟩ := compose_cons_eq_ok.1 hrest
    cases hadd.symm.trans hadd₁
    rw [hstale.drawn_compose habove, (h.compose hm).drawn_add hadd hreads, nil_append]

theorem Genuine.drawn_iff (h : Genuine decks g) (hws : g.compose ws = .ok g') :
    g'.head.shown.drawn = drawings ws ↔
      g.Stale ws ∧ g.head.shown.drawn = [] ∨
        ∃ below above, g.Renewed ws below above ∧ drawings below = [] := by
  constructor
  · intro heq
    rcases stale_or_renewed hws with hstale | ⟨below, above, hnew⟩
    · rw [hstale.drawn_compose hws, append_left_eq_self] at heq
      exact .inl ⟨hstale, heq⟩
    · obtain ⟨hsplit, hdrawn⟩ := h.drawn_of_renewed hnew hws
      rw [hdrawn, hsplit, self_eq_append_left] at heq
      exact .inr ⟨below, above, hnew, heq⟩
  · rintro (⟨hstale, hclean⟩ | ⟨below, above, hnew, hclean⟩)
    · rw [hstale.drawn_compose hws, hclean, nil_append]
    · obtain ⟨hsplit, hdrawn⟩ := h.drawn_of_renewed hnew hws
      rw [hdrawn, hsplit, hclean, nil_append]

end VideoWork

namespace Timeline

open VideoWork Wanted

variable {t : Timeline} {decks : List (String × Deck Shown)} {s : Screen} {g g' : VideoWork Makeup}
  {ws : List Wanted} {k : Nat} {p : Picture}

def frameAt (t : Timeline) (decks : List (String × Deck Shown)) (k : Nat) :
    Except Fault (Option (String × Shot Shown)) := do
  let ws ← t.wantedTo (k + 1)
  return (← (labelled decks).compose (requests ws)).head.shown.frame

theorem frameAt_eq_ok (h : t.workAt decks (k + 1) = .ok g') :
    t.frameAt decks k = .ok g'.head.shown.frame := by
  obtain ⟨ws, hws, hg⟩ := bind_eq_ok.1 h
  have hbare := compose_requests hg
  rw [map_bare_labelled] at hbare
  rw [frameAt, hws, ok_bind, hbare]
  rfl

def Overlaid (t : Timeline) (decks : List (String × Deck Shown)) (k : Nat) : Prop :=
  ∀ g', t.workAt decks (k + 1) = .ok g' → g'.head.shown.drawn = t.activeAt k

/-- A tick that brings no new frame comes after one without drawings, and a new frame does not
come after a drawing of its tick. -/
def Tidy (t : Timeline) (decks : List (String × Deck Shown)) (k : Nat) : Prop :=
  ∀ g ws, t.workAt decks k = .ok g → t.wantedAt k = .ok ws →
    (g.Stale ws → ∀ j, k = j + 1 → t.activeAt j = []) ∧
      ∀ below above, g.Renewed ws below above → drawings below = []

section

variable (h : t.Turn decks s k g ws g' p)

include h

theorem Turn.overlaid_iff : t.Overlaid decks k ↔ g'.head.shown.drawn = t.activeAt k := by
  refine ⟨fun hright => hright g' h.after, fun hdrawn g₁ hg₁ => ?_⟩
  cases h.after.symm.trans hg₁
  exact hdrawn

theorem Turn.drawn_iff :
    g'.head.shown.drawn = t.activeAt k ↔
      g.Stale ws ∧ g.head.shown.drawn = [] ∨
        ∃ below above, g.Renewed ws below above ∧ drawings below = [] := by
  rw [← drawings_wantedAt h.wanted]
  exact (genuine_workAt h.before).drawn_iff h.step

theorem Turn.overlaid_of_tidy (htidy : t.Tidy decks k)
    (hclean : (∀ j, k = j + 1 → t.activeAt j = []) → g.head.shown.drawn = []) :
    t.Overlaid decks k := by
  obtain ⟨hstays, hcovers⟩ := htidy g ws h.before h.wanted
  rw [h.overlaid_iff, h.drawn_iff]
  rcases stale_or_renewed h.step with hstale | ⟨below, above, hnew⟩
  · exact .inl ⟨hstale, hclean (hstays hstale)⟩
  · exact .inr ⟨below, above, hnew, hcovers below above hnew⟩

theorem Turn.tidy_of_overlaid (hright : t.Overlaid decks k)
    (hbefore : ∀ j, k = j + 1 → t.Overlaid decks j) : t.Tidy decks k := by
  intro g₁ ws₁ hg₁ hws₁
  cases hg₁.symm.trans h.before
  cases hws₁.symm.trans h.wanted
  constructor
  · rintro hstale j rfl
    rcases h.drawn_iff.1 (h.overlaid_iff.1 hright) with ⟨-, hclean⟩ | ⟨below, above, hnew, -⟩
    · rw [← hbefore j rfl g h.before, hclean]
    · exact absurd hstale hnew.not_stale
  · intro below above hnew
    obtain ⟨hsplit, hdrawn⟩ := (genuine_workAt h.before).drawn_of_renewed hnew h.step
    have hall := h.overlaid_iff.1 hright
    rw [← drawings_wantedAt h.wanted, hdrawn, hsplit, self_eq_append_left] at hall
    exact hall

end

theorem overlaid_iff_tidy {n : Nat} {ps : List Picture}
    (hps : (range n).mapM (t.pictureAt decks s) = .ok ps) :
    (∀ k < n, t.Overlaid decks k) ↔ ∀ k < n, t.Tidy decks k := by
  constructor
  · intro hall k hk
    obtain ⟨g, ws, g', p, h, -⟩ := exists_turn hps hk
    exact h.tidy_of_overlaid (hall k hk) fun j hj => hall j (by omega)
  · intro hall k
    -- What is on the screen before a tick is the picture of the tick before, which has just the
    -- active drawings on it; before the first tick it is the blank.
    induction k with
    | zero =>
      intro hk
      obtain ⟨g, ws, g', p, h, -⟩ := exists_turn hps hk
      refine h.overlaid_of_tidy (hall 0 hk) fun _ => ?_
      cases Except.ok.inj h.before
      rfl
    | succ j ih =>
      intro hk
      obtain ⟨g, ws, g', p, h, -⟩ := exists_turn hps hk
      refine h.overlaid_of_tidy (hall (j + 1) hk) fun hnone => ?_
      rw [ih (by omega) g h.before, hnone j rfl]

/-- In every run, each picture is its frame, which the drawings do not change, with the active
drawings on it exactly if they come on a clean frame: either no new frame is brought and nothing is
drawn on what is on the screen, or one is brought and no active drawing comes before it. All
pictures are so exactly if all ticks are tidy. -/
theorem drawn_active_iff {tr : Transcoder} {o : Options} {bar : Bar} {temp : String} {c : Console}
    {σ σ' : Workspace} {out : String × Bool} (hrun : t.renderVideo tr o bar temp c σ = .ok out σ') :
    ∃ decks s n, ∃ ps : List Picture, t.Stage o c σ decks s n ∧
      σ'.frames = σ.frames ++ ps.map (·.bytes) ∧ ps.length = n.toNat ∧
      (∀ k < n.toNat, ∃ g ws g' p, t.Turn decks s k g ws g' p ∧ ps[k]? = some p ∧
        t.frameAt decks k = .ok g'.head.shown.frame ∧
        (g'.head.shown.drawn = t.activeAt k ↔
          g.Stale ws ∧ g.head.shown.drawn = [] ∨
            ∃ below above, g.Renewed ws below above ∧ drawings below = [])) ∧
      ((∀ k < n.toNat, t.Overlaid decks k) ↔ ∀ k < n.toNat, t.Tidy decks k) := by
  obtain ⟨decks, s, n, ps, hstage, hps, hframes⟩ := renderVideo_frames hrun
  refine ⟨decks, s, n, ps, hstage, hframes, length_of_pictures hps, fun k hk => ?_,
    overlaid_iff_tidy hps⟩
  obtain ⟨g, ws, g', p, hturn, hp⟩ := exists_turn hps hk
  exact ⟨g, ws, g', p, hturn, hp, frameAt_eq_ok hturn.after, hturn.drawn_iff⟩

def marked (clip : VideoClip) : Timeline :=
  solo 1 [[.clip clip],
    [.drawing ⟨0, 1, 0, 0, "tl", 1, 0, 0, "#000", .rect 1 1 "#fff"⟩]]

theorem drawn_active_iff_next_frame :
    ∃ out σ' decks s g ws g' p, render (marked ⟨0, 2, .text "0", 0, 1, 0⟩) false
        (holding [[9, 0, 0], [8, 0, 0]]) = .ok out σ' ∧
      (marked ⟨0, 2, .text "0", 0, 1, 0⟩).Turn decks s 1 g ws g' p ∧ g.Renewed ws [] [] ∧
      g'.head.shown.drawn = (marked ⟨0, 2, .text "0", 0, 1, 0⟩).activeAt 1 ∧
      σ'.frames = [[255, 255, 255], [8, 0, 0]] := by
  obtain ⟨out, σ', hrun, hframes⟩ := exists_of_sent (show sent (render
    (marked ⟨0, 2, .text "0", 0, 1, 0⟩) false (holding [[9, 0, 0], [8, 0, 0]])) =
      some [[255, 255, 255], [8, 0, 0]] by decide +kernel)
  obtain ⟨decks, s, n, ps, hstage, -, -, hticks, -⟩ := drawn_active_iff hrun
  have hstop : n = 2 := Except.ok.inj (hstage.stop_eq.symm.trans (by decide +kernel))
  obtain ⟨g, ws, g', p, hturn, -, -, hiff⟩ := hticks 1 (by rw [hstop]; decide)
  have hws : ws = [.frame (.text "0") 1] :=
    Except.ok.inj (hturn.wanted.symm.trans (by with_unfolding_all rfl))
  have hreads : ¬ g.Keeps "0" 1 := by
    apply not_keeps_of_lt
    rw [hturn.tick_eq hstage (show _ = some 0 by decide +kernel)]
    decide
  have hnew : g.Renewed ws [] [] := by
    obtain ⟨m, hadd, -⟩ := compose_cons_eq_ok.1 (hws ▸ hturn.step)
    exact ⟨"0", 1, g, m, hws, rfl, hreads, hadd, by simp [Stale]⟩
  exact ⟨out, σ', decks, s, g, ws, g', p, hrun, hturn, hnew, hiff.2 (.inr ⟨[], [], hnew, rfl⟩),
    hframes⟩

theorem drawing_outlasts :
    sent (render (marked ⟨0, 1, .text "0", 0, .float 0.5, 0⟩) false
      (holding [[9, 0, 0], [9, 0, 0]])) = some [[255, 255, 255], [255, 255, 255]] := by
  decide +kernel

end Timeline

end Jumpcut
