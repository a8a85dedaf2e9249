import Jumpcut.Proofs.MakeupLaws

namespace Jumpcut

open Outcome Sample Makeup

variable {α β : Type}

def reelOf (decks : List (String × Deck α)) (label : String) : Option (Reel α) :=
  (decks.lookup label).bind (·.reel)

namespace Wanted

def isFrame : Wanted → Bool
  | .frame _ _ => true
  | .drawing _ => false

def requests (ws : List Wanted) : List Wanted := ws.filter isFrame

end Wanted

def Makeup.bare (m : Makeup) : Makeup := ⟨m.frame, []⟩

namespace VideoWork

open Wanted

/-- The source leaves what is on the screen when it is asked for the tick. -/
def Keeps (g : VideoWork α) (label : String) (want : Int) : Prop :=
  ∃ r, reelOf g.decks label = some r ∧ Search.Keeps want g.head r

def From (g : VideoWork Makeup) (label : String) : Prop :=
  ∀ x, g.head.shown.frame = some x → x.1 = label

/-- The frames that can be read, and the one on the screen, are those of the sources. -/
structure Genuine (decks : List (String × Deck Shown)) (g : VideoWork Makeup) : Prop where
  shots : ∀ label, (reelOf g.decks label).map (·.shots) =
    (reelOf decks label).map fun r => (r.labelled label).shots
  frame : ∀ x, g.head.shown.frame = some x → ∃ r, reelOf decks x.1 = some r ∧ x.2 ∈ r.shots

variable {g g' : VideoWork Makeup} {decks : List (String × Deck Shown)} {x : Wanted}
  {ws : List Wanted} {label : String} {want : Int} {src : Setting.Raw}

theorem reelOf_map (f : α → β) (w : VideoWork α) (label : String) :
    reelOf (w.map f).decks label = (reelOf w.decks label).map (Reel.map f) := by
  rw [reelOf, map, lookup_map_pair fun _ => Deck.map f, reelOf]
  cases w.decks.lookup label <;> rfl

theorem keeps_map (f : α → β) (w : VideoWork α) (label : String) (want : Int) :
    (w.map f).Keeps label want ↔ w.Keeps label want := by
  rw [Keeps, Keeps, reelOf_map]
  cases reelOf w.decks label with
  | none => simp
  | some r => simp [Search.Keeps, Reel.Spent, Reel.map, map, Head.map]

theorem not_keeps_of_lt {w : VideoWork α} (hlt : w.head.tick < want) : ¬ w.Keeps label want := by
  rintro ⟨r, -, hsame | ⟨hback, -⟩⟩ <;> omega

theorem reelOf_setReel (w : VideoWork α) {r r' : Reel α} (hr : reelOf w.decks label = some r)
    (hshots : r'.shots = r.shots) (n : String) :
    (reelOf (w.setReel label r').decks n).map (·.shots) = (reelOf w.decks n).map (·.shots) := by
  have hlook := lookup_map_pair
    (fun n d => if n = label then { d with reel := some r' } else d) w.decks n
  rw [reelOf, decks_setReel, hlook]
  by_cases hn : n = label
  · subst hn
    rw [hr, Option.map_some, ← hshots]
    obtain ⟨d, hd, -⟩ := Option.bind_eq_some_iff.1 hr
    rw [hd, Option.map_some, if_pos rfl]
    rfl
  · rw [reelOf]
    cases w.decks.lookup n with
    | none => rfl
    | some d => simp only [hn, ↓reduceIte, Option.map_some, Option.bind_some]

theorem add_frame (hadd : g.add (.frame src want) = .ok g') :
    ∃ label r, src = .text label ∧ reelOf g.decks label = some r ∧
      (∀ n, (reelOf g'.decks n).map (·.shots) = (reelOf g.decks n).map (·.shots)) ∧
      (g.Keeps label want ∧ g'.head = g.head ∨
        ¬ g.Keeps label want ∧
          ((∃ s ∈ r.shots, g'.head.shown = s.shown) ∨ g'.head.shown = .blank)) := by
  obtain ⟨label, r, pace, format, rfl, hlook, rfl⟩ := add_frame_eq_ok.1 hadd
  have hr : reelOf g.decks label = some r := by rw [reelOf, hlook, Option.bind_some]
  refine ⟨label, r, rfl, hr, reelOf_setReel g hr Search.shots_serve, ?_⟩
  by_cases hkeeps : Search.Keeps want g.head r
  · exact .inl ⟨⟨r, hr, hkeeps⟩, Search.serve_of_keeps hkeeps⟩
  · refine .inr ⟨?_, ?_⟩
    · rintro ⟨r', hr', hkeeps'⟩
      cases hr.symm.trans hr'
      exact hkeeps hkeeps'
    · rcases Search.serve_of_not_keeps hkeeps with ⟨s, hs, hshown, -⟩ | hblank
      · exact .inl ⟨s, hs, hshown⟩
      · exact .inr hblank

theorem Genuine.exists_shot (h : Genuine decks g) {r : Reel Makeup}
    (hr : reelOf g.decks label = some r) {s : Shot Makeup} (hs : s ∈ r.shots) :
    ∃ r₀ x, reelOf decks label = some r₀ ∧ x ∈ r₀.shots ∧ s.shown = .ofShot label x := by
  have hshots := h.shots label
  rw [hr, Option.map_some, eq_comm, Option.map_eq_some_iff] at hshots
  obtain ⟨r₀, hr₀, heq⟩ := hshots
  rw [← heq, Reel.labelled] at hs
  obtain ⟨x, hx, rfl⟩ := List.mem_map.1 hs
  exact ⟨r₀, x, hr₀, hx, rfl⟩

theorem genuine_labelled (decks : List (String × Deck Shown)) : Genuine decks (labelled decks) := by
  refine ⟨fun label => ?_, fun x hx => by cases hx⟩
  rw [reelOf, labelled, lookup_map_pair Deck.labelled, reelOf]
  cases decks.lookup label with
  | none => rfl
  | some d => simp only [Option.map_some, Option.bind_some, Deck.labelled, Option.map_map]; rfl

theorem Genuine.add (h : Genuine decks g) (hadd : g.add x = .ok g') : Genuine decks g' := by
  cases x with
  | drawing d =>
    cases hadd
    exact ⟨h.shots, h.frame⟩
  | frame src want =>
    obtain ⟨label, r, -, hr, hshots, ⟨-, hhead⟩ | ⟨-, hnew⟩⟩ := add_frame hadd
    · exact ⟨fun n => (hshots n).trans (h.shots n), hhead ▸ h.frame⟩
    · refine ⟨fun n => (hshots n).trans (h.shots n), fun x hx => ?_⟩
      rcases hnew with ⟨s, hs, hshown⟩ | hblank
      · obtain ⟨r₀, y, hr₀, hy, hlabel⟩ := h.exists_shot hr hs
        rw [hshown, hlabel] at hx
        cases hx
        exact ⟨r₀, hr₀, hy⟩
      · rw [hblank] at hx
        cases hx

theorem Genuine.compose (h : Genuine decks g) (hws : g.compose ws = .ok g') : Genuine decks g' := by
  induction ws generalizing g with
  | nil =>
    cases hws
    exact h
  | cons x ws ih =>
    obtain ⟨g₁, hadd, hrest⟩ := compose_cons_eq_ok.1 hws
    exact ih (h.add hadd) hrest

theorem compose_requests (hws : g.compose ws = .ok g') :
    (g.map bare).compose (requests ws) = .ok (g'.map bare) := by
  induction ws generalizing g with
  | nil =>
    cases hws
    rfl
  | cons x ws ih =>
    obtain ⟨g₁, hadd, hrest⟩ := compose_cons_eq_ok.1 hws
    cases x with
    | drawing d =>
      cases hadd
      have hbare := ih hrest
      exact hbare
    | frame src want =>
      have hfind := find_map bare g .blank 0 0 src want
      have hadd' : (g.map bare).add (.frame src want) = .ok (g₁.map bare) := by
        rw [add]
        refine hfind.trans ?_
        obtain ⟨y, hy, rfl⟩ := map_eq_ok.1 hadd
        rw [hy]
        rfl
      exact compose_cons_eq_ok.2 ⟨_, hadd', ih hrest⟩

theorem map_bare_labelled (decks : List (String × Deck Shown)) :
    (labelled decks).map bare = labelled decks := by
  have hdeck (p : String × Deck Shown) : (p.2.labelled p.1).map bare = p.2.labelled p.1 := by
    obtain ⟨label, _ | r, pace, format⟩ := p
    · rfl
    · simp [Deck.map, Deck.labelled, Reel.map, Reel.labelled, Shot.map, Function.comp_def,
        bare, ofShot]
  simp only [map, labelled, List.map_map, Function.comp_def, hdeck]
  rfl

theorem drawn_of_requests (hws : (labelled decks).compose ws = .ok g) (hall : ∀ x ∈ ws, x.isFrame) :
    g.head.shown.drawn = [] := by
  have hbare := compose_requests hws
  rw [map_bare_labelled, requests, List.filter_eq_self.2 hall, hws] at hbare
  exact congrArg (·.head.shown.drawn) (Except.ok.inj hbare)

theorem Genuine.from_iff (h : Genuine decks g) (hws : g.compose ws = .ok g')
    (halone : requests ws = [.frame (.text label) want]) :
    g'.From label ↔ (g.Keeps label want → g.From label) := by
  have hadd := compose_requests hws
  rw [halone] at hadd
  obtain ⟨_, hadd, hdone⟩ := compose_cons_eq_ok.1 hadd
  cases hdone
  obtain ⟨_, r, hlabel, hr, -, hscreen⟩ := add_frame hadd
  cases hlabel
  rw [keeps_map] at hscreen
  rcases hscreen with ⟨hkeeps, hhead⟩ | ⟨hkeeps, hnew⟩
  · have hframe : g'.head.shown.frame = g.head.shown.frame := congrArg (·.shown.frame) hhead
    rw [From, hframe, ← From]
    exact ⟨fun hfrom _ => hfrom, fun hfrom => hfrom hkeeps⟩
  · refine iff_of_true (fun x hx => ?_) (fun hk => absurd hk hkeeps)
    rw [reelOf_map, Option.map_eq_some_iff] at hr
    obtain ⟨r', hr', rfl⟩ := hr
    rcases hnew with ⟨s, hs, hshown⟩ | hblank
    · obtain ⟨s', hs', rfl⟩ := List.mem_map.1 hs
      obtain ⟨_, y, -, -, hlabel⟩ := h.exists_shot hr' hs'
      have hframe := congrArg Makeup.frame hshown
      change g'.head.shown.frame = s'.shown.frame at hframe
      rw [hframe, hlabel] at hx
      cases hx
      rfl
    · have hframe : g'.head.shown.frame = none := congrArg Makeup.frame hblank
      rw [hframe] at hx
      cases hx

end VideoWork

namespace Timeline

open VideoWork Wanted

variable {t : Timeline} {decks : List (String × Deck Shown)} {s : Screen} {g g' : VideoWork Makeup}
  {ws : List Wanted} {k : Nat} {p : Picture}

theorem Turn.tick_eq {o : Options} {c : Console} {σ : Workspace} {n i : Int}
    (hturn : t.Turn decks s k g ws g' p) (hstage : t.Stage o c σ decks s n)
    (heval : ((t.decksOf o.noSeek σ.media).bind (t.workAt · k)).toOption.map (·.head.tick) = some i) :
    g.head.tick = i := by
  rw [hstage.decks_eq, Except.bind, hturn.before] at heval
  exact Option.some.inj heval

theorem genuine_workAt (h : t.workAt decks k = .ok g) : Genuine decks g := by
  obtain ⟨ws, -, hws⟩ := bind_eq_ok.1 h
  exact (genuine_labelled decks).compose hws

/-- In every run, a tick that asks one source alone shows a frame of it, or the blank, exactly if
this source reads one or what is on the screen is not from another. -/
theorem frame_own_iff {tr : Transcoder} {o : Options} {bar : Bar} {temp : String} {c : Console}
    {σ σ' : Workspace} {out : String × Bool} (hrun : t.renderVideo tr o bar temp c σ = .ok out σ') :
    ∃ decks s n, ∃ ps : List Picture, t.Stage o c σ decks s n ∧
      σ'.frames = σ.frames ++ ps.map (·.bytes) ∧ ps.length = n.toNat ∧
      ∀ k < n.toNat, ∃ g ws g' p, t.Turn decks s k g ws g' p ∧ ps[k]? = some p ∧
        (∀ x, g'.head.shown.frame = some x → ∃ r, reelOf decks x.1 = some r ∧ x.2 ∈ r.shots) ∧
        ∀ label want, requests ws = [.frame (.text label) want] →
          (g'.From label ↔ (g.Keeps label want → g.From label)) := by
  obtain ⟨decks, s, n, ps, hstage, hps, hframes⟩ := renderVideo_frames hrun
  refine ⟨decks, s, n, ps, hstage, hframes, length_of_pictures hps, fun k hk => ?_⟩
  obtain ⟨g, ws, g', p, hturn, hp⟩ := exists_turn hps hk
  refine ⟨g, ws, g', p, hturn, hp, (genuine_workAt hturn.after).frame, fun label want halone => ?_⟩
  exact (genuine_workAt hturn.before).from_iff hturn.step halone

def oneThenOther (offset offset' : Int) : Timeline :=
  Sample.timeline [("0", Sample.source "/work/a.mp4"), ("1", Sample.source "/work/b.mp4")] 1
    [[tick 0 "0" offset, tick 1 "1" offset']]

def redAndGreen : Workspace :=
  workspace [("/work/a.mp4", medium [[0, 0, 0], [1, 0, 0], [2, 0, 0]]),
    ("/work/b.mp4", medium [[0, 0, 0], [0, 1, 0], [0, 2, 0]])]

theorem frame_own_iff_other_tick :
    ∃ out σ' decks s g ws g' p, render (oneThenOther 1 2) false redAndGreen = .ok out σ' ∧
      (oneThenOther 1 2).Turn decks s 1 g ws g' p ∧ ¬ g.Keeps "1" 2 ∧ g'.From "1" ∧
      σ'.frames = [[1, 0, 0], [0, 2, 0]] := by
  obtain ⟨out, σ', hrun, hframes⟩ := exists_of_sent (show sent (render
    (oneThenOther 1 2) false redAndGreen) = some [[1, 0, 0], [0, 2, 0]] by decide +kernel)
  obtain ⟨decks, s, n, ps, hstage, -, -, hticks⟩ := frame_own_iff hrun
  have hstop : n = 2 := Except.ok.inj (hstage.stop_eq.symm.trans (by decide +kernel))
  obtain ⟨g, ws, g', p, hturn, -, -, hiff⟩ := hticks 1 (by rw [hstop]; decide)
  have hws : ws = [.frame (.text "1") 2] :=
    Except.ok.inj (hturn.wanted.symm.trans (by with_unfolding_all rfl))
  have hreads : ¬ g.Keeps "1" 2 := by
    apply not_keeps_of_lt
    rw [hturn.tick_eq hstage (show _ = some 1 by decide +kernel)]
    decide
  exact ⟨out, σ', decks, s, g, ws, g', p, hrun, hturn, hreads,
    (hiff "1" 2 (by rw [hws]; rfl)).2 fun hkeeps => absurd hkeeps hreads, hframes⟩

theorem frame_of_other_source :
    sent (render (oneThenOther 1 1) false redAndGreen) =
      some [[1, 0, 0], [1, 0, 0]] := by
  decide +kernel

end Timeline

end Jumpcut
