import Jumpcut.Proofs.OriginLaws

namespace Jumpcut

open Outcome List Sample Reel Spot VideoWork Deck

def Reel.Within {α : Type} (r : Reel α) : Wanted → Prop
  | .frame _ want => 0 ≤ want ∧ ∃ s ∈ r.shots, want ≤ s.tick
  | .drawing _ => True

def Wanted.Of (label : String) : Wanted → Prop
  | .frame src _ => src = .text label
  | .drawing _ => True

structure Play where
  spot : Spot
  seen : Makeup

namespace Play

def begin : Play := ⟨.start, .blank⟩

def add (r₀ : Reel Makeup) (a : Play) : Wanted → Play
  | .frame _ want =>
    ⟨a.spot.after r₀ want,
      if a.spot.Stays r₀ want then a.seen else (land r₀ want).shown r₀ .blank⟩
  | .drawing d => ⟨a.spot, a.seen.draw d⟩

end Play

namespace VideoWork

variable {label : String} {p : Pace} {r₀ : Reel Makeup} {a : Play} {g g' : VideoWork Makeup}
  {x : Wanted}

structure Plays (label : String) (p : Pace) (r₀ : Reel Makeup) (a : Play) (g : VideoWork Makeup) :
    Prop where
  alone : ∃ r format, g.decks = [(label, ⟨some r, p, format⟩)] ∧ a.spot.Stands r₀ g.head r
  seen : g.head.shown = a.seen

theorem plays_begin (label : String) (d : Deck Shown) {r : Reel Shown} (hreel : d.reel = some r)
    (hplace : r.place = 0) (hended : r.ended = false) :
    Plays label d.pace (r.labelled label) .begin (labelled [(label, d)]) := by
  refine ⟨⟨r.labelled label, d.format, ?_, ?_⟩, rfl⟩
  · simp only [labelled, map_cons, map_nil, Deck.labelled, hreel, Option.map_some]
  · have hstart : r.labelled label = ⟨(r.labelled label).shots, 0, false⟩ := by
      rw [Reel.labelled, hplace, hended]
    rw [hstart]
    exact .start rfl (Int.le_refl _)

theorem Plays.add (h : Plays label p r₀ a g) (hord : r₀.Ordered)
    (hshort : ∀ src want, x = .frame src want → r₀.JumpsShort p want) (hx : x.Of label) :
    ∃ g', g.add x = .ok g' ∧ Plays label p r₀ (a.add r₀ x) g' := by
  obtain ⟨⟨r, format, hdecks, hstands⟩, hseen⟩ := h
  cases x with
  | drawing d =>
    refine ⟨_, rfl, ⟨r, format, hdecks, hstands.showing _⟩, ?_⟩
    simp only [Play.add, hseen]
  | frame src want =>
    cases hx
    obtain ⟨hstands', hshown⟩ := hstands.serve .blank 0 hord (hshort _ want rfl)
    have hlook : g.decks.lookup label = some ⟨some r, p, format⟩ := by
      rw [hdecks, lookup_cons_self]
    refine ⟨_, add_frame_eq_ok.2 ⟨label, r, p, format, rfl, hlook, rfl⟩,
      ⟨_, format, ?_, hstands'⟩, ?_⟩
    · simp only [decks_setReel, hdecks, map_cons, map_nil, if_true]
    simp only [Play.add]
    split
    · next hstays => rw [Search.serve_of_keeps (hstands.stays_iff.2 hstays), hseen]
    · next hstays => exact hshown (mt hstands.stays_iff.1 hstays)

theorem Plays.compose {ws : List Wanted} (h : Plays label p r₀ a g) (hord : r₀.Ordered)
    (hshort : ∀ want, r₀.JumpsShort p want) (hws : ∀ x ∈ ws, x.Of label) :
    ∃ g', g.compose ws = .ok g' ∧ Plays label p r₀ (ws.foldl (·.add r₀) a) g' := by
  induction ws generalizing a g with
  | nil => exact ⟨g, rfl, h⟩
  | cons x ws ih =>
    obtain ⟨g₁, hg, h₁⟩ := h.add hord (fun _ want _ => hshort want) (hws x (.head _))
    obtain ⟨g', hg', h'⟩ := ih h₁ fun y hy => hws y (.tail _ hy)
    exact ⟨g', compose_cons_eq_ok.2 ⟨g₁, hg, hg'⟩, h'⟩

theorem of_of_compose {d : Deck Shown} {ws : List Wanted}
    (hg : (labelled [(label, d)]).compose ws = .ok g) : ∀ x ∈ ws, x.Of label := by
  intro x hx
  cases x with
  | drawing d => trivial
  | frame src want =>
    obtain ⟨l, hl, rfl⟩ := exists_label_of_compose hg hx
    rw [mem_singleton.1 hl]
    rfl

end VideoWork

namespace Play

variable {r₀ : Reel Makeup} {a : Play} {want : Int}

structure Holds (r₀ : Reel Makeup) (want : Int) (a : Play) : Prop where
  spot : a.spot = .land r₀ want
  frame : a.seen.frame = ((land r₀ want).shown r₀ .blank).frame
  within : r₀.first want < r₀.shots.length

theorem Holds.add (src : Setting.Raw) (h : a.spot = .start ∨ ∃ w, a.Holds r₀ w) (hord : r₀.Ordered)
    (hwant : 0 ≤ want) (hin : r₀.first want < r₀.shots.length) :
    (a.add r₀ (.frame src want)).Holds r₀ want := by
  have hne : r₀.shots ≠ [] := ne_nil_of_length_pos (by omega)
  have hpast : a.spot ≠ .past := by
    rcases h with hstart | ⟨w, hw⟩
    · simp [hstart]
    · simp [hw.spot, land, hw.within]
  by_cases htick : want = a.spot.tick r₀
  · obtain ⟨w, hw⟩ : ∃ w, a.Holds r₀ w := by
      rcases h with hstart | hw
      · rw [hstart, Spot.tick] at htick
        omega
      · exact hw
    have hsame : land r₀ want = .land r₀ w := by
      rw [htick, hw.spot, land_tick hord hw.within]
    refine ⟨?_, ?_, hin⟩
    · rw [Play.add, Spot.after, if_pos (.inr htick), hw.spot, hsame]
    · simp only [Play.add]
      rw [if_pos (.inl htick), hw.frame, hsame]
  · have hstays : ¬ a.spot.Stays r₀ want := by simp [Stays, htick, hpast, hne]
    refine ⟨after_eq_land hpast htick, ?_, hin⟩
    simp only [Play.add]
    rw [if_neg hstays]

theorem holds_foldl {ws : List Wanted} (h : a.spot = .start ∨ ∃ w, a.Holds r₀ w)
    (hord : r₀.Ordered) (hws : ∀ x ∈ ws, r₀.Within x) :
    (ws.foldl (·.add r₀) a).spot = .start ∨ ∃ w, (ws.foldl (·.add r₀) a).Holds r₀ w := by
  induction ws generalizing a with
  | nil => exact h
  | cons x ws ih =>
    refine ih ?_ fun y hy => hws y (.tail _ hy)
    have hx := hws x (.head _)
    cases x with
    | frame src want => exact .inr ⟨want, .add src h hord hx.1 (first_lt_iff.2 hx.2)⟩
    | drawing d =>
      rcases h with hstart | ⟨w, hw⟩
      · exact .inl hstart
      · exact .inr ⟨w, hw.spot, hw.frame, hw.within⟩

end Play

namespace Reel

variable {r : Reel Shown} {want : Int}

theorem first_labelled (label : String) (r : Reel Shown) (want : Int) :
    (r.labelled label).first want = r.first want := by
  simp only [first, labelled, findIdx_map, Function.comp_def]

theorem ordered_labelled (label : String) (hord : r.Ordered) : (r.labelled label).Ordered :=
  pairwise_map.2 hord

theorem keyPlace_labelled (label : String) (r : Reel Shown) (stamp : Int) :
    (r.labelled label).keyPlace stamp = r.keyPlace stamp := by
  simp only [keyPlace, labelled, zipIdx_map, filter_map, getLast?_map, Option.map_map]
  rfl

theorem ticks_labelled (label : String) (r : Reel Shown) : (r.labelled label).ticks = r.ticks := by
  simp only [ticks, labelled, map_map, Function.comp_def]

theorem jumpsShort_labelled (label : String) (r : Reel Shown) (p : Pace) (want : Int) :
    (r.labelled label).JumpsShort p want ↔ r.JumpsShort p want := by
  simp only [JumpsShort, first_labelled, keyPlace_labelled, ticks_labelled]

theorem within_labelled (label : String) {x : Wanted} :
    (r.labelled label).Within x ↔ r.Within x := by
  cases x with
  | frame src want => simp [Within, labelled]
  | drawing d => rfl

theorem frame_land_labelled (label : String) (r : Reel Shown) (want : Int) :
    ((land (r.labelled label) want).shown (r.labelled label) .blank).frame =
      (r.shots.find? (want ≤ ·.tick)).map (label, ·) := by
  have hlength : (r.labelled label).shots.length = r.shots.length := length_map _
  rw [find?_eq_getElem?_findIdx, land, first_labelled, hlength]
  change _ = (r.shots[r.first want]?).map (label, ·)
  split
  · next hin =>
    simp only [shown, labelled, getElem?_map, getElem?_eq_getElem hin,
      Option.map_some, Option.getD_some, Makeup.ofShot]
  · next hout =>
    rw [getElem?_eq_none (Nat.le_of_not_lt hout)]
    rfl

end Reel

namespace Deck

variable {m : Medium} {v : VideoTrack} {vs : List VideoTrack} {tb : Rat} {noSeek : Bool}
  {d : Deck Shown}

theorem ofMedium_eq_ok (hvideo : m.video = v :: vs) (hd : ofMedium noSeek tb (some m) = .ok d) :
    ∃ r, d.reel = some r ∧ ofTrack tb v = .ok r ∧ paceOf noSeek v = .ok d.pace := by
  simp only [ofMedium, Option.map_some, Option.getD_some, hvideo, bind_eq_ok, pure_eq_ok] at hd
  obtain ⟨r, hr, p, hp, rfl⟩ := hd
  exact ⟨r, rfl, hr, hp⟩

theorem compose_selects (label : String) {r : Reel Shown} {ws : List Wanted} {want : Int}
    (hr : d.reel = some r) (hplace : r.place = 0) (hended : r.ended = false) (hord : r.Ordered)
    (hshort : ∀ n, r.JumpsShort d.pace n)
    (hws : ∀ x ∈ ws ++ [.frame (.text label) want], x.Of label ∧ r.Within x) :
    ∃ g, (VideoWork.labelled [(label, d)]).compose (ws ++ [.frame (.text label) want]) = .ok g ∧
      g.head.shown.frame = (r.shots.find? (want ≤ ·.tick)).map (label, ·) := by
  have hord' := ordered_labelled label hord
  obtain ⟨g, hg, hplays⟩ := (plays_begin label d hr hplace hended).compose hord'
    (fun n => (jumpsShort_labelled label r _ n).2 (hshort n)) fun x hx => (hws x hx).1
  refine ⟨g, hg, ?_⟩
  have hbefore := Play.holds_foldl (.inl rfl : Play.begin.spot = .start ∨ _) hord' fun x hx =>
    (within_labelled label).2 (hws x (mem_append_left _ hx)).2
  have hlast := (within_labelled label).2 (hws _ (mem_append_right _ (.head _))).2
  have hholds := Play.Holds.add (.text label) hbefore hord' hlast.1 (first_lt_iff.2 hlast.2)
  rw [hplays.seen, foldl_append, ← frame_land_labelled]
  exact hholds.frame

theorem exists_of_reel {x : Except Fault (Deck Shown)} {r : Reel Shown}
    (h : x.toOption.bind (·.reel) = some r) : ∃ d, x = .ok d ∧ d.reel = some r := by
  cases x with
  | error e => cases h
  | ok d => exact ⟨d, rfl, h⟩

theorem pace_of_noSeek {p : Pace} (hp : paceOf true v = .ok p) : ⟨4294967295, 0⟩ = p := by
  simpa [paceOf] using hp

end Deck

theorem Reel.ofTrack_eq_ok {tb : Rat} {v : VideoTrack} {r : Reel Shown} (h : ofTrack tb v = .ok r) :
    r.place = 0 ∧ r.ended = false := by
  rw [ofTrack, bind_eq_ok] at h
  obtain ⟨shots, -, hr⟩ := h
  cases pure_eq_ok.1 hr
  exact ⟨rfl, rfl⟩

namespace Timeline

variable {t : Timeline} {tr : Transcoder} {o : Options} {bar : Bar} {temp : String} {c : Console}
  {σ σ' : Workspace} {out : String × Bool} {m : Medium} {d : Deck Shown} {label : String}
  {file : Source}

theorem renderVideo_single (hrun : t.renderVideo tr o bar temp c σ = .ok out σ')
    (hsources : t.sources = [(label, file)])
    (hmedium : σ.media.lookup (absolutePath file.path) = some m)
    (hd : ofMedium o.noSeek t.tb (some m) = .ok d) :
    ∃ s n ps, t.Stage o c σ [(label, d)] s n ∧
      (range n.toNat).mapM (t.pictureAt [(label, d)] s) = .ok ps ∧
      σ'.frames = σ.frames ++ ps.map (·.bytes) := by
  obtain ⟨decks, s, n, ps, hstage, hps, hframes⟩ := renderVideo_frames hrun
  have hdecks : t.decksOf o.noSeek σ.media = .ok [(label, d)] := by
    rw [decksOf, hsources, mapM_cons, hmedium, hd]
    rfl
  cases hstage.decks_eq.symm.trans hdecks
  exact ⟨s, n, ps, hstage, hps, hframes⟩

/-- Without jumps, a source that is alone shows the first of its frames that is not before the tick
wanted, in whatever order ticks are wanted; and this is what is handed over. -/
theorem noSeek_selects_first {v : VideoTrack} {vs : List VideoTrack} {r : Reel Shown} {tb : Rat}
    (label : String) (hvideo : m.video = v :: vs) (hd : ofMedium true tb (some m) = .ok d)
    (hr : d.reel = some r) (hord : r.Ordered) (hback : r.keyPlace 0 = 0) :
    (∀ ws want, (∀ x ∈ ws ++ [.frame (.text label) want], x.Of label ∧ r.Within x) →
      ∃ g, (labelled [(label, d)]).compose (ws ++ [.frame (.text label) want]) = .ok g ∧
        g.head.shown.frame = (r.shots.find? (want ≤ ·.tick)).map (label, ·)) ∧
    ∀ (t : Timeline) (tr : Transcoder) (o : Options) (bar : Bar) (temp : String) (c : Console)
      (σ σ' : Workspace) (out : String × Bool) (file : Source), o.noSeek = true → t.tb = tb →
      t.sources = [(label, file)] → σ.media.lookup (absolutePath file.path) = some m →
      t.renderVideo tr o bar temp c σ = .ok out σ' →
      ∃ s n, ∃ ps : List Picture, t.Stage o c σ [(label, d)] s n ∧
        σ'.frames = σ.frames ++ ps.map (·.bytes) ∧ ps.length = n.toNat ∧
        ∀ k < n.toNat, ∀ ws want, t.wantedTo (k + 1) = .ok (ws ++ [.frame (.text label) want]) →
          (∀ x ∈ ws ++ [.frame (.text label) want], x.isFrame ∧ r.Within x) →
          ∃ x p, r.shots.find? (want ≤ ·.tick) = some x ∧ s.view x.shown = .ok p ∧
            ps[k]? = some p := by
  obtain ⟨r', hr', htrack, hpace⟩ := ofMedium_eq_ok hvideo hd
  cases hr.symm.trans hr'
  obtain ⟨hplace, hended⟩ := ofTrack_eq_ok htrack
  have hshort (n : Int) : r.JumpsShort d.pace n := by
    rw [← pace_of_noSeek hpace]
    intro t _ _ _
    rw [Int.mul_zero, hback]
    exact Nat.zero_le _
  refine ⟨fun ws want hws => compose_selects label hr hplace hended hord hshort hws, ?_⟩
  rintro t tr o bar temp c σ σ' out file hseek rfl hsources hmedium hrun
  obtain ⟨s, n, ps, hstage, hps, hframes⟩ := renderVideo_single hrun hsources hmedium (hseek ▸ hd)
  refine ⟨s, n, ps, hstage, hframes, length_of_pictures hps, fun k hk ws want hwanted hin => ?_⟩
  obtain ⟨g, _, g', p, hturn, hp⟩ := exists_turn hps hk
  obtain ⟨_, hwanted', hg'⟩ := bind_eq_ok.1 hturn.after
  cases hwanted.symm.trans hwanted'
  obtain ⟨g₁, hg₁, hframe⟩ := compose_selects label hr hplace hended hord hshort
    fun x hx => ⟨of_of_compose hg' x hx, (hin x hx).2⟩
  cases hg'.symm.trans hg₁
  obtain ⟨-, y, hy, hle⟩ := (hin (.frame (.text label) want) (by simp)).2
  obtain ⟨x, hx⟩ : ∃ x, r.shots.find? (want ≤ ·.tick) = some x :=
    Option.isSome_iff_exists.1 (find?_isSome.2 ⟨y, hy, decide_eq_true hle⟩)
  rw [hx, Option.map_some] at hframe
  refine ⟨x, p, hx, ?_, hp⟩
  have hdrawn := drawn_of_requests hg' fun x hx => (hin x hx).1
  rw [← Makeup.picture_of_frame hframe hdrawn, hturn.picture]

def backAndForth : Timeline :=
  solo 2 [[tick 0 "0" 5, tick 1 "0" 1, tick 2 "0" 1, tick 3 "0" 0]]

theorem noSeek_selects_first_back_and_forth :
    ∃ d out σ', ofMedium true 2 (some (medium (counted 4))) = .ok d ∧
      d.reel = some ⟨countedShots 2 4, 0, false⟩ ∧
      (∃ g, (labelled [("0", d)]).compose
          ([.frame (.text "0") 5] ++ [.frame (.text "0") 1]) = .ok g ∧
        g.head.shown.frame = ((countedShots 2 4).find? (1 ≤ ·.tick)).map ("0", ·)) ∧
      render backAndForth true (holding (counted 4)) = .ok out σ' ∧
      (∃ s : Screen, ∃ ps : List Picture, σ'.frames = ps.map (·.bytes) ∧ ∃ x p,
        (countedShots 2 4).find? (1 ≤ ·.tick) = some x ∧ s.view x.shown = .ok p ∧
          ps[1]? = some p) ∧
      σ'.frames = [[3, 0, 0], [1, 0, 0], [1, 0, 0], [0, 0, 0]] := by
  obtain ⟨d, hd, hr⟩ := exists_of_reel (show ((ofMedium true 2 (some (medium
    (counted 4)))).toOption.bind (·.reel)) = some ⟨countedShots 2 4, 0, false⟩ by
      decide +kernel)
  obtain ⟨out, σ', hrun, hframes⟩ := exists_of_sent (show sent (render
    backAndForth true (holding (counted 4))) =
      some [[3, 0, 0], [1, 0, 0], [1, 0, 0], [0, 0, 0]] by decide +kernel)
  have hord : (⟨countedShots 2 4, 0, false⟩ : Reel Shown).Ordered := by
    unfold Ordered
    decide
  have hasked : ∀ x ∈ [.frame (.text "0") 5] ++ [.frame (.text "0") 1], x.isFrame ∧ x.Of "0" ∧
      (⟨countedShots 2 4, 0, false⟩ : Reel Shown).Within x := by
    intro x hx
    simp only [cons_append, nil_append, mem_cons, not_mem_nil, or_false] at hx
    rcases hx with rfl | rfl
    · exact ⟨rfl, rfl, by decide, first_lt_iff.1 (by decide)⟩
    · exact ⟨rfl, rfl, by decide, first_lt_iff.1 (by decide)⟩
  obtain ⟨hselects, hsends⟩ := noSeek_selects_first "0" rfl hd hr hord (by decide)
  obtain ⟨s, n, ps, hstage, hsent, -, hticks⟩ := hsends backAndForth transcoder
    (options true) .hidden "t" console (holding (counted 4)) σ' out
    (Sample.source "/work/a.mp4") rfl rfl rfl (lookup_holding _) hrun
  have hstop : n = 4 := Except.ok.inj (hstage.stop_eq.symm.trans (by decide +kernel))
  have hsecond := hticks 1 (by rw [hstop]; decide) [.frame (.text "0") 5] 1
    (by with_unfolding_all rfl) fun x hx => ⟨(hasked x hx).1, (hasked x hx).2.2⟩
  exact ⟨d, out, σ', hd, hr, hselects _ _ fun x hx => (hasked x hx).2, hrun, ⟨s, ps, hsent, hsecond⟩,
    hframes⟩

end Timeline

end Jumpcut
