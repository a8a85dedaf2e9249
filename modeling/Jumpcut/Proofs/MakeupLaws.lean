import Jumpcut.Proofs.EncoderLaws
import Jumpcut.Proofs.SearchLaws
import Jumpcut.Proofs.WorkspaceLaws

/-!
What the pictures that are handed over are made of. A search does the same whatever the frames show,
so it can be run on frames that show where they come from. That run, with every drawing noted down
in place of being painted, tells of each picture which frame it is and what lies over it.
-/
namespace Jumpcut

open Outcome List Screen VideoWork Setting

variable {α β : Type}

theorem lookup_map_pair {γ δ : Type} (f : String → γ → δ) (xs : List (String × γ)) (k : String) :
    (xs.map fun p => (p.1, f p.1 p.2)).lookup k = (xs.lookup k).map (f k) := by
  induction xs with
  | nil => rfl
  | cons x xs ih =>
    obtain ⟨n, y⟩ := x
    rw [map_cons, lookup_pair_cons, lookup_pair_cons, ih]
    split
    · next h => rw [h, Option.map_some]
    · rfl

def Deck.map (f : α → β) (d : Deck α) : Deck β := ⟨d.reel.map (Reel.map f), d.pace, d.format⟩

namespace VideoWork

def map (f : α → β) (w : VideoWork α) : VideoWork β :=
  ⟨w.decks.map fun p => (p.1, p.2.map f), w.head.map f⟩

theorem decks_setReel (w : VideoWork α) (label : String) (r : Reel α) :
    (w.setReel label r).decks =
      w.decks.map fun p => (p.1, if p.1 = label then { p.2 with reel := some r } else p.2) := by
  refine map_congr_left fun p _ => ?_
  split
  · next h => rw [← h]
  · rfl

theorem map_decks_setReel (f : α → β) (w : VideoWork α) (label : String) (r : Reel α) :
    (w.setReel label r).decks.map (fun p => (p.1, p.2.map f)) =
      ((w.map f).setReel label (r.map f)).decks := by
  rw [decks_setReel, decks_setReel, map, map_map, map_map]
  refine map_congr_left fun p _ => ?_
  simp only [Function.comp_apply]
  split <;> rfl

theorem find_map (f : α → β) (w : VideoWork α) (blank : α) (i j : Int) (src : Raw)
    (want : Int) :
    ((w.map f).find (f blank) j src want).map (·.1) =
      (w.find blank i src want).map (·.1.map f) := by
  cases src with
  | number n => rfl
  | text label =>
    have hlook : (w.map f).decks.lookup label = (w.decks.lookup label).map (Deck.map f) :=
      lookup_map_pair (fun _ => Deck.map f) w.decks label
    simp only [find]
    rw [hlook]
    rcases w.decks.lookup label with _ | ⟨_ | r, pace, format⟩
    · rfl
    · rfl
    · obtain ⟨hhead, hreel⟩ := Search.serve_map f pace blank i j want w.head r
      refine congrArg Except.ok ?_
      change mk _ _ = mk _ _
      rw [map_decks_setReel, ← hreel, ← hhead]
      rfl

end VideoWork

namespace Screen

def Covers (s : Screen) (p : Picture) : Prop := p.width = s.width ∧ p.height = s.height

def view (s : Screen) (f : Shown) : Except Fault Picture := (s.fit f).map (·.picture)

variable {s : Screen} {f f' : Shown} {p p' : Picture}

theorem covers_blank (s : Screen) : s.Covers s.blank.picture := ⟨rfl, rfl⟩

theorem view_of_covers (h : s.Covers f.picture) : s.view f = .ok f.picture := by
  have hfit : s.fit f = .ok f := if_pos h
  rw [view, hfit]
  rfl

theorem covers_padded {back : Pixel} (h : p.padded s.width s.height back = .ok p') : s.Covers p' := by
  simp only [Picture.padded, bind_eq_ok] at h
  obtain ⟨⟨w, h⟩, -, hrest⟩ := h
  dsimp only at hrest
  split at hrest
  · cases hrest
  · cases pure_eq_ok.1 hrest
    split <;> exact ⟨rfl, rfl⟩

theorem covers_fit (h : s.fit f = .ok f') : s.Covers f'.picture := by
  rw [fit] at h
  split at h
  · next hsize =>
    cases pure_eq_ok.1 h
    exact hsize
  · obtain ⟨p, hp, hf⟩ := bind_eq_ok.1 h
    cases pure_eq_ok.1 hf
    exact covers_padded hp

/-- The screens show frames alike: the format they hand them over in does not matter. -/
structure Same (s s' : Screen) : Prop where
  width : s.width = s'.width
  height : s.height = s'.height
  back : s.back = s'.back
  images : s.images = s'.images

theorem Same.view_eq {s' : Screen} (h : s.Same s') (f : Shown) : s.view f = s'.view f := by
  simp only [view, fit, h.width, h.height, h.back]
  split
  · rfl
  · cases f.picture.padded s'.width s'.height s'.back <;> rfl

theorem Same.view_blank {s' : Screen} (h : s.Same s') : s.view s.blank = s'.view s'.blank := by
  rw [view_of_covers s.covers_blank, view_of_covers s'.covers_blank, blank, blank, h.width, h.height,
    h.back]

end Screen

/-- What a picture is made of: a frame of a source, or the blank, and the drawings over it. -/
structure Makeup where
  frame : Option (String × Shot Shown)
  drawn : List Drawing

open Makeup

namespace Makeup

def blank : Makeup := ⟨none, []⟩

def ofShot (label : String) (s : Shot Shown) : Makeup := ⟨some (label, s), []⟩

def draw (m : Makeup) (d : Drawing) : Makeup := { m with drawn := m.drawn ++ [d] }

def picture (s : Screen) (m : Makeup) : Except Fault Picture := do
  let base ← s.view ((m.frame.map (·.2.shown)).getD s.blank)
  m.drawn.foldlM (fun p d => d.paint s.images p) base

@[simp] theorem picture_ofShot (s : Screen) (label : String) (x : Shot Shown) :
    (ofShot label x).picture s = s.view x.shown := by
  simp only [picture, ofShot, Option.map_some, Option.getD_some, foldlM_nil, bind_pure]

theorem picture_of_frame {m : Makeup} {label : String} {x : Shot Shown}
    (hframe : m.frame = some (label, x)) (hdrawn : m.drawn = []) (s : Screen) :
    m.picture s = s.view x.shown := by
  obtain ⟨frame, drawn⟩ := m
  cases hframe
  cases hdrawn
  exact picture_ofShot s label x

@[simp] theorem picture_blank (s : Screen) : blank.picture s = .ok s.blank.picture := by
  simp only [picture, blank, Option.map_none, Option.getD_none, foldlM_nil, bind_pure,
    view_of_covers s.covers_blank]

theorem picture_congr {s s' : Screen} (h : s.Same s') (m : Makeup) : m.picture s = m.picture s' := by
  obtain ⟨frame, drawn⟩ := m
  rw [picture, picture, h.images]
  cases frame with
  | none => exact congrArg (· >>= _) h.view_blank
  | some x => exact congrArg (· >>= _) (h.view_eq x.2.shown)

theorem picture_draw (s : Screen) (m : Makeup) (d : Drawing) :
    (m.draw d).picture s = m.picture s >>= fun p => d.paint s.images p := by
  simp only [picture, draw, foldlM_append, foldlM_cons, foldlM_nil, bind_pure,
    bind_assoc]

end Makeup

def Reel.labelled (label : String) (r : Reel Shown) : Reel Makeup :=
  ⟨r.shots.map fun s => ⟨s.tick, .ofShot label s, s.key, s.pts⟩, r.place, r.ended⟩

def Deck.labelled (label : String) (d : Deck Shown) : Deck Makeup :=
  ⟨d.reel.map (Reel.labelled label), d.pace, d.format⟩

namespace VideoWork

def labelled (decks : List (String × Deck Shown)) : VideoWork Makeup :=
  ⟨decks.map fun p => (p.1, p.2.labelled p.1), .begin .blank⟩

def add (w : VideoWork Makeup) : Wanted → Except Fault (VideoWork Makeup)
  | .frame src want => (w.find .blank 0 src want).map (·.1)
  | .drawing d => .ok { w with head := { w.head with shown := w.head.shown.draw d } }

def compose (w : VideoWork Makeup) (ws : List Wanted) : Except Fault (VideoWork Makeup) :=
  ws.foldlM add w

variable {g g' : VideoWork Makeup} {x : Wanted} {ws : List Wanted} {src : Raw} {want : Int}

theorem add_frame_eq_ok :
    g.add (.frame src want) = .ok g' ↔ ∃ label r pace format, src = .text label ∧
      g.decks.lookup label = some ⟨some r, pace, format⟩ ∧
      g' = ⟨(g.setReel label (Search.serve pace .blank 0 want g.head r).reel).decks,
        (Search.serve pace .blank 0 want g.head r).head⟩ := by
  rw [add]
  cases src with
  | number n => simp [find, Except.map]
  | text label =>
    constructor
    · intro h
      rcases hlook : g.decks.lookup label with _ | ⟨_ | r, pace, format⟩
      · simp [find, hlook, Except.map] at h
      · simp [find, hlook, Except.map] at h
      · simp only [find, hlook, Except.map, Except.ok.injEq] at h
        exact ⟨label, r, pace, format, rfl, hlook, h.symm⟩
    · rintro ⟨_, r, pace, format, hlabel, hlook, rfl⟩
      cases hlabel
      simp only [find, hlook, Except.map]

theorem labels_add (hadd : g.add x = .ok g') : g'.decks.map (·.1) = g.decks.map (·.1) := by
  cases x with
  | drawing d =>
    cases hadd
    rfl
  | frame src want =>
    obtain ⟨label, r, pace, format, -, -, rfl⟩ := add_frame_eq_ok.1 hadd
    simp only [decks_setReel, map_map, Function.comp_def]

theorem compose_cons_eq_ok :
    g.compose (x :: ws) = .ok g' ↔ ∃ g₁, g.add x = .ok g₁ ∧ g₁.compose ws = .ok g' := by
  rw [compose, foldlM_cons, bind_eq_ok]
  rfl

theorem exists_label_of_compose (h : g.compose ws = .ok g') (hmem : .frame src want ∈ ws) :
    ∃ label ∈ g.decks.map (·.1), src = .text label := by
  induction ws generalizing g with
  | nil => cases hmem
  | cons x ws ih =>
    obtain ⟨g₁, hadd, hrest⟩ := compose_cons_eq_ok.1 h
    rcases mem_cons.1 hmem with rfl | hmem
    · obtain ⟨label, r, pace, format, hsrc, hlook, -⟩ := add_frame_eq_ok.1 hadd
      obtain ⟨before, after, hsplit, -⟩ := lookup_eq_some_iff.1 hlook
      exact ⟨label, by simp [hsplit], hsrc⟩
    · rw [← labels_add hadd]
      exact ih hrest hmem

end VideoWork

theorem Drawing.covers_paint {s : Screen} {d : Drawing} {images : List (String × Still)}
    {p p' : Picture} (h : d.paint images p = .ok p') (hp : s.Covers p) : s.Covers p' := by
  simp only [paint, bind_eq_ok] at h
  obtain ⟨sprite, -, hpaint⟩ := h
  cases sprite with
  | none =>
    cases pure_eq_ok.1 hpaint
    exact hp
  | some sprite =>
    dsimp only at hpaint
    obtain ⟨alpha, -, hlaid⟩ := bind_eq_ok.1 hpaint
    cases pure_eq_ok.1 hlaid
    exact hp

namespace VideoWork

open Session

variable {s : Screen} {c : Console} {w w' : VideoWork Shown} {g : VideoWork Makeup}
  {σ σ' : Workspace}

/-- A run and its notes: they stand at the same places, and the notes tell what is seen. -/
structure Mirrors (s : Screen) (w : VideoWork Shown) (g : VideoWork Makeup) : Prop where
  same : w.map s.view = g.map (picture s)
  covers : s.Covers w.head.shown.picture

theorem Mirrors.picture (h : Mirrors s w g) :
    g.head.shown.picture s = .ok w.head.shown.picture := by
  have hsame := congrArg (·.head.shown) h.same
  exact hsame.symm.trans (view_of_covers h.covers)

theorem mirrors_labelled (s : Screen) (decks : List (String × Deck Shown)) :
    Mirrors s ⟨decks, .begin s.blank⟩ (labelled decks) := by
  have hreel (label : String) (r : Reel Shown) :
      r.map s.view = (r.labelled label).map (picture s) := by
    simp only [Reel.map, Reel.labelled, map_map]
    refine congrArg (Reel.mk · r.place r.ended) (map_congr_left fun x _ => ?_)
    simp only [Function.comp_apply, Shot.map, picture_ofShot]
  refine ⟨?_, s.covers_blank⟩
  simp only [map, labelled, map_map, mk.injEq]
  refine ⟨map_congr_left fun p _ => ?_, ?_⟩
  · simp only [Function.comp_apply, Deck.map, Deck.labelled, Option.map_map]
    rw [show Reel.map s.view = Reel.map (picture s) ∘ Reel.labelled p.1 from
      funext (hreel p.1)]
  · simp only [Head.map, Head.begin, picture_blank, view_of_covers s.covers_blank]

theorem Mirrors.showing (h : w.map s.view = g.map (Makeup.picture s)) {f : Shown} {m : Makeup}
    (hsame : m.picture s = .ok f.picture) (hcovers : s.Covers f.picture) :
    Mirrors s { w with head := { w.head with shown := f } }
      { g with head := { g.head with shown := m } } := by
  refine ⟨?_, hcovers⟩
  simp only [map, Head.map, mk.injEq, Head.mk.injEq] at h ⊢
  refine ⟨h.1, ?_, h.2.2⟩
  rw [hsame, view_of_covers hcovers]

theorem Mirrors.showFrame {i want : Int} {src : Raw} (h : Mirrors s w g)
    (hrun : w.showFrame s c i src want σ = .ok w' σ') :
    σ'.frames = σ.frames ∧ ∃ g', g.add (.frame src want) = .ok g' ∧ Mirrors s w' g' := by
  simp only [VideoWork.showFrame, run_bind_eq_ok, ofExcept_eq_ok, run_pure_eq_ok] at hrun
  obtain ⟨⟨found, events⟩, _, ⟨hfind, rfl⟩, _, σ₁, hevents, f, _, ⟨hfit, rfl⟩, rfl, rfl⟩ := hrun
  refine ⟨Mute.frames (.forM (SearchEvent.mute_perform c) events) hevents, ?_⟩
  have hnotes := find_map (Makeup.picture s) g .blank 0 i src want
  rw [picture_blank, ← view_of_covers s.covers_blank, ← h.same,
    find_map s.view w s.blank i i, hfind] at hnotes
  obtain ⟨⟨g₁, events'⟩, hg, hsame⟩ := map_eq_ok.1 hnotes.symm
  have hseen := congrArg (·.head.shown) hsame
  have hcovers := covers_fit hfit
  have hview : s.view found.head.shown = .ok f.picture := by rw [view, hfit, Except.map]
  refine ⟨g₁, ?_, .showing hsame.symm (hseen.trans hview) hcovers⟩
  rw [add, hg, Except.map]

theorem Mirrors.showAll {i : Int} {ws : List Wanted} (h : Mirrors s w g)
    (hrun : showAll s c i ws w σ = .ok w' σ') :
    σ'.frames = σ.frames ∧ ∃ g', g.compose ws = .ok g' ∧ Mirrors s w' g' := by
  induction ws generalizing w g σ with
  | nil =>
    obtain ⟨rfl, rfl⟩ := run_pure_eq_ok.1 hrun
    exact ⟨rfl, g, rfl, h⟩
  | cons x ws ih =>
    cases x with
    | frame src want =>
      obtain ⟨w₁, σ₁, hfirst, hrest⟩ := run_bind_eq_ok.1 hrun
      obtain ⟨hquiet, g₁, hg, h₁⟩ := h.showFrame hfirst
      obtain ⟨hquiet', g', hg', h'⟩ := ih h₁ hrest
      exact ⟨hquiet'.trans hquiet, g', compose_cons_eq_ok.2 ⟨g₁, hg, hg'⟩, h'⟩
    | drawing d =>
      obtain ⟨p, σ₁, hfirst, hrest⟩ := run_bind_eq_ok.1 hrun
      obtain ⟨hpaint, rfl⟩ := ofExcept_eq_ok.1 hfirst
      have hseen : (g.head.shown.draw d).picture s = .ok p := by
        rw [picture_draw, h.picture]
        exact hpaint
      exact ih (.showing h.same hseen (Drawing.covers_paint hpaint h.covers)) hrest

end VideoWork

namespace Timeline

open Session VideoWork

variable {t : Timeline} {s : Screen} {c : Console} {bar : Bar} {decks : List (String × Deck Shown)}
  {w w' : VideoWork Shown} {g : VideoWork Makeup} {σ σ' : Workspace} {k n : Nat} {ps : List Picture}
  {sources : List (String × Source)}

def wantedTo (t : Timeline) : (k : Nat) → Except Fault (List Wanted)
  | 0 => .ok []
  | k + 1 => do return (← wantedTo t k) ++ (← t.wantedAt k)

def workAt (t : Timeline) (decks : List (String × Deck Shown)) (k : Nat) :
    Except Fault (VideoWork Makeup) := do
  (labelled decks).compose (← t.wantedTo k)

def pictureAt (t : Timeline) (decks : List (String × Deck Shown)) (s : Screen) (k : Nat) :
    Except Fault Picture := do
  (← t.workAt decks (k + 1)).head.shown.picture s

theorem workAt_succ_eq_ok {g' : VideoWork Makeup} :
    t.workAt decks (k + 1) = .ok g' ↔
      ∃ g ws, t.workAt decks k = .ok g ∧ t.wantedAt k = .ok ws ∧ g.compose ws = .ok g' := by
  simp only [workAt, wantedTo, compose, bind_eq_ok, pure_eq_ok]
  constructor
  · rintro ⟨_, ⟨before, hbefore, ws, hws, rfl⟩, hg⟩
    rw [foldlM_append, bind_eq_ok] at hg
    obtain ⟨g, hg, hg'⟩ := hg
    exact ⟨g, ws, ⟨before, hbefore, hg⟩, hws, hg'⟩
  · rintro ⟨g, ws, ⟨before, hbefore, hg⟩, hws, hg'⟩
    refine ⟨_, ⟨before, hbefore, ws, hws, rfl⟩, ?_⟩
    rw [foldlM_append, hg]
    exact hg'

theorem sendTicks_frames (hwork : t.workAt decks k = .ok g) (h : Mirrors s w g)
    (hrun : t.sendTicks s c bar n k w σ = .ok w' σ') :
    ∃ ps, (range' k n).mapM (t.pictureAt decks s) = .ok ps ∧
      σ'.frames = σ.frames ++ ps.map (·.bytes) := by
  induction n generalizing k w g σ with
  | zero =>
    obtain ⟨-, rfl⟩ := run_pure_eq_ok.1 hrun
    exact ⟨[], rfl, (append_nil _).symm⟩
  | succ n ih =>
    simp only [sendTicks, run_bind_eq_ok, ofExcept_eq_ok] at hrun
    obtain ⟨ws, _, ⟨hws, rfl⟩, w₁, σ₁, hshow, hrest⟩ := hrun
    obtain ⟨hquiet, g₁, hg, h₁⟩ := h.showAll hshow
    obtain ⟨σ₂, htick, hrest⟩ := (bar.mute_tick (.int k)).of_ite hrest
    obtain ⟨_, σ₃, hsend, hrest⟩ := run_bind_eq_ok.1 hrest
    have hwork₁ : t.workAt decks (k + 1) = .ok g₁ := workAt_succ_eq_ok.2 ⟨g, ws, hwork, hws, hg⟩
    have h₂ := Mirrors.showing (f := ⟨w₁.head.shown.picture, s.format⟩) h₁.same h₁.picture h₁.covers
    obtain ⟨ps, hps, hframes⟩ := ih hwork₁ h₂ hrest
    refine ⟨w₁.head.shown.picture :: ps, ?_, ?_⟩
    · have hpic : t.pictureAt decks s k = .ok w₁.head.shown.picture := by
        rw [pictureAt, hwork₁]
        exact h₁.picture
      rw [range'_succ, mapM_cons, hpic, hps]
      rfl
    · rw [hframes, frames_sendFrame hsend, htick, hquiet, map_cons, append_assoc]
      rfl

theorem length_of_pictures (hps : (range n).mapM (t.pictureAt decks s) = .ok ps) :
    ps.length = n := by
  rw [← (mapM_eq_ok.1 hps).length_eq, length_range]

/-- What is wanted at a tick leads from where the ticks before have come to, to the picture. -/
structure Turn (t : Timeline) (decks : List (String × Deck Shown)) (s : Screen) (k : Nat)
    (g : VideoWork Makeup) (ws : List Wanted) (g' : VideoWork Makeup) (p : Picture) : Prop where
  before : t.workAt decks k = .ok g
  wanted : t.wantedAt k = .ok ws
  step : g.compose ws = .ok g'
  after : t.workAt decks (k + 1) = .ok g'
  picture : g'.head.shown.picture s = .ok p

theorem exists_turn (hps : (range n).mapM (t.pictureAt decks s) = .ok ps) (hk : k < n) :
    ∃ g ws g' p, t.Turn decks s k g ws g' p ∧ ps[k]? = some p := by
  have hlen : k < ps.length := by rwa [length_of_pictures hps]
  have hp := (mapM_eq_ok.1 hps).get (by rwa [length_range]) hlen
  rw [get_eq_getElem, getElem_range] at hp
  obtain ⟨g', hafter, hpicture⟩ := bind_eq_ok.1 hp
  obtain ⟨g, ws, hbefore, hwanted, hstep⟩ := workAt_succ_eq_ok.1 hafter
  exact ⟨g, ws, g', _, ⟨hbefore, hwanted, hstep, hafter, hpicture⟩, getElem?_eq_getElem hlen⟩

def decksOf (t : Timeline) (noSeek : Bool) (media : List (String × Medium)) :
    Except Fault (List (String × Deck Shown)) :=
  t.sources.mapM fun p => do
    return (p.1, ← Deck.ofMedium noSeek t.tb (media.lookup (absolutePath p.2.path)))

structure Stage (t : Timeline) (o : Options) (c : Console) (σ : Workspace)
    (decks : List (String × Deck Shown)) (s : Screen) (n : Int) : Prop where
  decks_eq : t.decksOf o.noSeek σ.media = .ok decks
  images_eq : imagesOf t.sources c t.v.flatten [] σ = .ok s.images σ
  back_eq : Pixel.named o.background = .ok s.back
  width_eq : s.width = t.resolution.1.toNat
  height_eq : s.height = t.resolution.2.toNat
  stop_eq : t.stop = .ok n

theorem Stage.same {o o' : Options} {decks' : List (String × Deck Shown)} {s' : Screen} {n n' : Int}
    (h : t.Stage o c σ decks s n) (h' : t.Stage o' c σ decks' s' n')
    (hback : o.background = o'.background) : s.Same s' ∧ n = n' := by
  refine ⟨⟨h.width_eq.trans h'.width_eq.symm, h.height_eq.trans h'.height_eq.symm, ?_, ?_⟩, ?_⟩
  · exact Except.ok.inj (h.back_eq.symm.trans (hback ▸ h'.back_eq))
  · exact (EStateM.Result.ok.inj (h.images_eq.symm.trans h'.images_eq)).1
  · exact Except.ok.inj (h.stop_eq.symm.trans h'.stop_eq)

theorem imagesOf_eq_ok {items : List VisualItem} {images images' : List (String × Still)}
    (h : imagesOf sources c items images σ = .ok images' σ') : σ = σ' := by
  induction items generalizing images with
  | nil => exact (run_pure_eq_ok.1 h).2
  | cons x items ih =>
    cases x with
    | clip v => exact ih h
    | drawing d =>
      cases hshape : d.shape with
      | text content font size align fill =>
        simp only [imagesOf, hshape] at h
        split at h
        · obtain ⟨_, _, hfail, -⟩ := run_bind_eq_ok.1 h
          exact absurd hfail (c.fail_ne_ok _)
        · exact ih h
      | image src =>
        simp only [imagesOf, hshape] at h
        split at h
        · exact ih h
        · cases src with
          | number n =>
            obtain ⟨_, _, hthrow, -⟩ := run_bind_eq_ok.1 h
            exact absurd hthrow run_throw_ne_ok
          | text label =>
            cases hfile : sources.lookup label with
            | none =>
              simp only [hfile] at h
              obtain ⟨_, _, hthrow, -⟩ := run_bind_eq_ok.1 h
              exact absurd hthrow run_throw_ne_ok
            | some file =>
              simp only [hfile] at h
              obtain ⟨_, _, hmedium, hrest⟩ := run_bind_eq_ok.1 h
              obtain ⟨_, _, hfound, hrest⟩ := run_bind_eq_ok.1 hrest
              cases hmedium
              cases hfound
              cases hstill : (σ.media.lookup (absolutePath file.path)).bind (·.still) with
              | none =>
                rw [hstill] at hrest
                exact absurd hrest run_throw_ne_ok
              | some still =>
                rw [hstill] at hrest
                exact ih hrest
      | rect width height fill =>
        simp only [imagesOf, hshape] at h
        exact ih h
      | ellipse width height fill =>
        simp only [imagesOf, hshape] at h
        exact ih h

theorem decks_eq_ok {noSeek : Bool} {tb : Rat} (h : (sources.mapM fun p : String × Source => do
      return (p.1, ← Session.ofExcept (Deck.ofMedium noSeek tb (← medium? p.2.path)))) σ =
        .ok decks σ') :
    σ = σ' ∧ (sources.mapM fun p : String × Source => do
      return (p.1, ← Deck.ofMedium noSeek tb (σ.media.lookup (absolutePath p.2.path)))) =
        .ok decks := by
  induction sources generalizing decks with
  | nil =>
    obtain ⟨rfl, rfl⟩ := run_pure_eq_ok.1 h
    exact ⟨rfl, rfl⟩
  | cons p sources ih =>
    simp only [mapM_cons, run_bind_eq_ok, ofExcept_eq_ok, run_pure_eq_ok] at h
    obtain ⟨_, _, ⟨m, _, hmedium, deck, _, ⟨hdeck, rfl⟩, rfl, rfl⟩, decks, _, hrest, rfl, rfl⟩ := h
    cases hmedium
    obtain ⟨rfl, hdecks⟩ := ih hrest
    refine ⟨rfl, ?_⟩
    rw [mapM_cons, hdeck, hdecks]
    rfl

theorem renderVideo_frames {tr : Transcoder} {o : Options} {bar₀ : Bar} {temp : String}
    {out : String × Bool} (hrun : t.renderVideo tr o bar₀ temp c σ = .ok out σ') :
    ∃ decks s n ps, t.Stage o c σ decks s n ∧
      (range n.toNat).mapM (t.pictureAt decks s) = .ok ps ∧
      σ'.frames = σ.frames ++ ps.map (·.bytes) := by
  unfold renderVideo at hrun
  dsimp only at hrun
  split at hrun
  · obtain ⟨_, _, hthrow, -⟩ := run_bind_eq_ok.1 hrun
    exact absurd hthrow run_throw_ne_ok
  · simp only [run_bind_eq_ok, ofExcept_eq_ok] at hrun
    obtain ⟨images, _, himages, decks, _, hdecks, _, σ₁, hnote₁, _, σ₂, hnote₂, _, σ₃, hnote₃, _, σ₄,
      hnote₄, _, σ₅, hfeed, n, _, ⟨hstop, rfl⟩, bar, σ₆, hbar, back, _, ⟨hback, rfl⟩, hrun⟩ := hrun
    obtain ⟨work, σ₇, htry, _, σ₈, hfinish, _, σ₉, hsaved, hend⟩ := hrun
    obtain rfl := imagesOf_eq_ok himages
    obtain ⟨rfl, hreels⟩ := decks_eq_ok hdecks
    have hsend := ok_of_tryCatch (fun e v => by
      split
      · intro h
        simp only [run_bind_eq_ok] at h
        obtain ⟨_, _, -, _, _, -, hfail⟩ := h
        exact c.fail_ne_ok _ hfail
      · exact run_throw_ne_ok) htry
    obtain ⟨ps, hps, hframes⟩ := sendTicks_frames (k := 0) rfl (mirrors_labelled _ decks) hsend
    have hbefore : σ₆.frames = σ.frames := by
      rw [(bar₀.mute_start _ _).frames hbar, (tr.mute_feed _).frames hfeed,
        (c.mute_note _).frames hnote₄, (c.mute_note _).frames hnote₃,
        (c.mute_note _).frames hnote₂, (c.mute_note _).frames hnote₁]
    have hscaled : Mute (if o.scale.eqv 1 then pure (Path.join temp "spedup0.mp4", appliesLater o)
        else do return (← rescale tr o.scale temp (Path.join temp "spedup0.mp4"), appliesLater o)) := by
      split
      · exact .pure _
      · exact .bind (mute_rescale tr o.scale temp _) fun _ => .pure _
    have hafter : σ'.frames = σ₇.frames := by
      rw [hscaled.frames hend, (c.mute_note _).frames hsaved, Bar.mute_finish.frames hfinish]
    rw [← range_eq_range'] at hps
    refine ⟨decks, _, n, ps, ?_, hps, ?_⟩
    · exact ⟨hreels, himages, hback, rfl, rfl, hstop⟩
    · rw [hafter, hframes, hbefore]

end Timeline

namespace Sample

def track (pixels : List (List UInt8)) : VideoTrack :=
  ⟨pixels.length, 1, some 1, "rgb24", 1, 1, pixels.zipIdx.map fun p =>
    ⟨Float.ofNat p.2, ⟨1, 1, p.1⟩, true, p.2⟩⟩

def medium (pixels : List (List UInt8)) : Medium := ⟨none, "", [], [], [track pixels]⟩

def counted (n : Nat) : List (List UInt8) := (range n).map fun k => [UInt8.ofNat k, 0, 0]

def countedShots (ticks n : Nat) : List (Shot Shown) :=
  (range n).map fun k : Nat =>
    ⟨ticks * k, ⟨⟨1, 1, [UInt8.ofNat k, 0, 0]⟩, "rgb24"⟩, true, k⟩

def source (path : String) : Source := ⟨path, "", .null, .null, .null, [], [], []⟩

def workspace (media : List (String × Medium)) : Workspace :=
  ⟨⟨[], []⟩, media, ⟨"", "", "", false, none, none, "", false, "", []⟩, .linux, 80, .unicode, [], [],
    0, 0, "", "", [], [], 0, 0⟩

def timeline (sources : List (String × Source)) (tb : Rat) (v : List (List VisualItem)) : Timeline :=
  ⟨sources, tb, 48000, (1, 1), "#000", v, [], none⟩

def holding (pixels : List (List UInt8)) : Workspace := workspace [("/work/a.mp4", medium pixels)]

def solo (tb : Rat) (v : List (List VisualItem)) : Timeline :=
  timeline [("0", source "/work/a.mp4")] tb v

theorem lookup_holding (pixels : List (List UInt8)) :
    (holding pixels).media.lookup (absolutePath "/work/a.mp4") = some (medium pixels) := by
  rw [show absolutePath "/work/a.mp4" = "/work/a.mp4" by decide +kernel]
  exact lookup_cons_self

def tick (start : Int) (label : String) (offset : Int) : VisualItem :=
  .clip ⟨start, 1, .text label, offset, 1, 0⟩

def transcoder : Transcoder := ⟨"ffmpeg", "", false⟩

def options (noSeek : Bool) : Options := { noSeek, scale := 1 }

def console : Console := ⟨false, true, none⟩

def render (t : Timeline) (noSeek : Bool) : Session (String × Bool) :=
  t.renderVideo transcoder (options noSeek) .hidden "t" console

def sent {α : Type} : EStateM.Result Fault Workspace α → Option (List (List UInt8))
  | .ok _ w => some w.frames
  | .error _ _ => none

theorem exists_of_sent {α : Type} {x : EStateM.Result Fault Workspace α} {frames : List (List UInt8)}
    (h : sent x = some frames) : ∃ a w, x = .ok a w ∧ w.frames = frames := by
  cases x with
  | error e w => cases h
  | ok a w => exact ⟨a, w, rfl, Option.some.inj h⟩

end Sample

end Jumpcut
