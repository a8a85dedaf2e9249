import Jumpcut.Proofs.ClockLaws

/-!
What of a subtitle text is left when it is read and written again. The text is made up of its cues and
of what stands before, between and after them (`Transcript`). Of what stands between two cues nothing
is kept, so that all text is kept just if there are only line feeds.
-/
namespace Jumpcut

open Exact Outcome List SubtitleFormat Number

/-- A part of a subtitle text: a character that stands as it is, or a whole time. -/
inductive Glyph : Type
  | char : Char → Glyph
  | time : List Char → Glyph

namespace Glyph

def chars : Glyph → List Char
  | .char c => [c]
  | .time t => t

def plainChars : Glyph → List Char
  | .char c => [c]
  | .time _ => []

def plain (cs : List Char) : List Glyph := cs.map .char

@[simp] theorem flatMap_chars_plain (cs : List Char) : (plain cs).flatMap chars = cs :=
  (flatMap_map _ _ cs).trans (flatMap_singleton' cs)

@[simp] theorem flatMap_plainChars_plain (cs : List Char) : (plain cs).flatMap plainChars = cs :=
  (flatMap_map _ _ cs).trans (flatMap_singleton' cs)

theorem plain_append (cs ds : List Char) : plain (cs ++ ds) = plain cs ++ plain ds := map_append

end Glyph

open Glyph

/-- The pieces stand one after the other in a text, each of them in one stretch and outside of times. -/
inductive Occur : List (List Char) → List Glyph → Prop
  | nil {gs : List Glyph} : Occur [] gs
  | skip {ps : List (List Char)} {g : Glyph} {gs : List Glyph} : Occur ps gs → Occur ps (g :: gs)
  | piece {p : List Char} {ps : List (List Char)} {gs : List Glyph} : Occur ps gs →
      Occur (p :: ps) (plain p ++ gs)

namespace Occur

variable {ps ls : List (List Char)} {gs : List Glyph}

theorem skips (h : Occur ps gs) (fs : List Glyph) : Occur ps (fs ++ gs) := by
  induction fs with
  | nil => exact h
  | cons f fs ih => exact ih.skip

theorem eq_nil {p : List Char} (h : Occur (p :: ps) []) : p = [] := by
  generalize hgs : ([] : List Glyph) = gs at h
  cases h with
  | skip => cases hgs
  | piece => exact map_eq_nil_iff.1 (append_eq_nil_iff.1 hgs.symm).1

theorem intercalate {c : Char} (h : Occur ps gs) :
    Occur (ls ++ ps) (plain ([c].intercalate ls) ++ gs) := by
  induction ls with
  | nil => exact h
  | cons l ls ih =>
    cases ls with
    | nil =>
      rw [intercalate_singleton]
      exact h.piece
    | cons l' ls =>
      rw [intercalate_cons_cons, plain_append, plain_append, append_assoc, append_assoc]
      exact (ih.skips _).piece

theorem empties (hls : ∀ l ∈ ls, l = []) (h : Occur ps gs) : Occur (ls ++ ps) gs := by
  induction ls with
  | nil => exact h
  | cons l ls ih =>
    obtain rfl := hls l (.head _)
    exact (ih fun l hl => hls l (.tail _ hl)).piece

end Occur

def lines (cs : List Char) : List (List Char) := cs.splitOn '\n'

theorem lines_append (cs ds : List Char) : lines (cs ++ '\n' :: ds) = lines cs ++ lines ds :=
  splitOn_append_cons_self cs ds

variable {cs : List Char} {ps : List (List Char)} {gs : List Glyph}

theorem eq_nil_of_mem_lines (h : ∀ c ∈ cs, c = '\n') : ∀ l ∈ lines cs, l = [] := by
  induction cs with
  | nil => simp [lines]
  | cons c cs ih =>
    obtain rfl := h c (.head _)
    rw [← nil_append ('\n' :: cs), lines_append]
    simpa [lines] using ih fun c hc => h c (.tail _ hc)

def ink (cs : List Char) : Nat := cs.countP (· ≠ '\n')

@[simp] theorem ink_append (cs ds : List Char) : ink (cs ++ ds) = ink cs + ink ds := countP_append

theorem ink_eq_zero_iff : ink cs = 0 ↔ ∀ c ∈ cs, c = '\n' := by
  simp [ink, countP_eq_zero]

@[simp] theorem ink_lines (cs : List Char) : ink (lines cs).flatten = ink cs := by
  have hjoin (ls : List (List Char)) : ink (['\n'].intercalate ls) = ink ls.flatten := by
    induction ls with
    | nil => rfl
    | cons l ls ih =>
      cases ls with
      | nil => simp
      | cons l' ls =>
        have hfeed : ink ['\n'] = 0 := rfl
        rw [intercalate_cons_cons, ink_append, ink_append, ih, hfeed, Nat.add_zero,
          ← ink_append]
        rfl
  rw [← hjoin, lines, intercalate_splitOn]

theorem Occur.ink_le (h : Occur ps gs) : ink ps.flatten ≤ ink (gs.flatMap plainChars) := by
  induction h with
  | nil => exact Nat.zero_le _
  | skip _ ih =>
    rw [flatMap_cons, ink_append]
    omega
  | piece _ ih =>
    rw [flatten_cons, ink_append, flatMap_append, flatMap_plainChars_plain, ink_append]
    omega

theorem Occur.lines {gap : List Char} (hgap : ∀ c ∈ gap, c = '\n') (h : Occur ps gs) :
    Occur (lines (cs ++ gap) ++ ps) (plain (cs ++ ['\n']) ++ gs) := by
  have hlines {qs : List (List Char)} (hqs : Occur qs (plain ['\n'] ++ gs)) :
      Occur (Jumpcut.lines cs ++ qs) (plain (cs ++ ['\n']) ++ gs) := by
    have hcs : Occur (Jumpcut.lines cs ++ qs)
        (plain (['\n'].intercalate (Jumpcut.lines cs)) ++ (plain ['\n'] ++ gs)) := hqs.intercalate
    rwa [Jumpcut.lines, intercalate_splitOn, ← append_assoc, ← plain_append] at hcs
  cases gap with
  | nil =>
    rw [append_nil]
    exact hlines (h.skips _)
  | cons c gap =>
    obtain rfl := hgap c (.head _)
    rw [lines_append, append_assoc]
    exact hlines ((h.skips _).empties (eq_nil_of_mem_lines fun c hc => hgap c (.tail _ hc)))

/-- A cue as it stands in a text, with what stands between it and the next one. -/
structure Block where
  (before start middle stop after gap : List Char)
  deriving DecidableEq

namespace Block

def chars (b : Block) : List Char :=
  b.before ++ b.start ++ b.middle ++ b.stop ++ b.after ++ b.gap

def pieces (b : Block) : List (List Char) := b.before :: b.middle :: lines (b.after ++ b.gap)

/-- The block is written with other times, and with a line feed for what stands behind it. -/
def Rewrites (b : Block) (gs : List Glyph) : Prop :=
  ∃ t t', gs = plain b.before ++ .time t :: (plain b.middle ++ .time t' :: plain (b.after ++ ['\n']))

theorem Rewrites.occur {b : Block} {gs hs : List Glyph} {ps : List (List Char)} (h : b.Rewrites gs)
    (hgap : ∀ c ∈ b.gap, c = '\n') (hocc : Occur ps hs) : Occur (b.pieces ++ ps) (gs ++ hs) := by
  obtain ⟨t, t', rfl⟩ := h
  simp only [pieces, append_assoc, cons_append]
  exact (hocc.lines hgap).skip.piece.skip.piece

theorem Rewrites.ink_eq {b : Block} {gs : List Glyph} (h : b.Rewrites gs) :
    ink b.pieces.flatten = ink (gs.flatMap plainChars) + ink b.gap := by
  obtain ⟨t, t', rfl⟩ := h
  have hfeed : ink ['\n'] = 0 := rfl
  simp [pieces, plainChars, hfeed]
  omega

def ofMatch (text : List Char) (m : Found) (gap : List Char) : Block :=
  ⟨(m.groupText 1 text).toList, (m.groupText 2 text).toList, (m.groupText 3 text).toList,
    (m.groupText 4 text).toList, (m.groupText 5 text).toList, gap⟩

end Block

structure Transcript where
  header : List Char
  blocks : List Block
  footer : List Char

namespace Transcript

def chars (t : Transcript) : List Char := t.header ++ t.blocks.flatMap Block.chars ++ t.footer

def pieces (t : Transcript) : List (List Char) :=
  t.header :: (t.blocks.flatMap Block.pieces ++ [t.footer])

def ofMatches (text : List Char) : Found → List Found → List Block × List Char
  | m, [] => ([.ofMatch text m []], text.drop m.span.stop)
  | m, m' :: ms =>
    let (bs, footer) := ofMatches text m' ms
    (.ofMatch text m (Span.of ⟨m.span.stop, m'.span.start⟩ text) :: bs, footer)

def of (f : SubtitleFormat) (text : List Char) : Transcript :=
  match f.cuePattern.findAll false text with
  | [] => ⟨text, [], []⟩
  | m :: ms =>
    let (bs, footer) := ofMatches text m ms
    ⟨text.take m.span.start, bs, footer⟩

end Transcript

open Transcript

open Pattern

theorem SubtitleFormat.chars_of_finds {f : SubtitleFormat} {text : List Char} {lo : Nat} {m : Found}
    (h : f.cuePattern.FindsFrom false text lo m) :
    text.drop m.span.start = (Block.ofMatch text m []).chars ++ text.drop m.span.stop := by
  obtain ⟨s, t, hs, hgroups, -, hlead, rfl⟩ := h
  obtain ⟨p₁, p₂, p₃, p₄, p₅, hplain, heq⟩ : ∃ p₁ p₂ p₃ p₄ p₅ : Pattern,
      (p₁.isPlain ∧ p₂.isPlain ∧ p₃.isPlain ∧ p₄.isPlain ∧ p₅.isPlain) ∧
      f.cuePattern = seqs [.group 1 p₁, .group 2 p₂, .group 3 p₃, .group 4 p₄, .group 5 p₅] := by
    cases f
    all_goals exact ⟨_, _, _, _, _, ⟨rfl, rfl, rfl, rfl, rfl⟩, rfl⟩
  rw [heq] at hlead
  obtain ⟨a, ha, b, hb, c, hc, d, hd, ht⟩ := hlead
  obtain ⟨hp₁, hp₂, hp₃, hp₄, hp₅⟩ := hplain
  obtain ⟨hga, hwa, hla⟩ := ha.group_spec hp₁ hs
  obtain ⟨hgb, hwb, hlb⟩ := hb.group_spec hp₂ hwa
  obtain ⟨hgc, hwc, hlc⟩ := hc.group_spec hp₃ hwb
  obtain ⟨hgd, hwd, hld⟩ := hd.group_spec hp₄ hwc
  obtain ⟨hgt, hwt, hlt⟩ := ht.group_spec hp₅ hwd
  have hall : t.groups = [(5, ⟨d.pos, t.pos⟩), (4, ⟨c.pos, d.pos⟩), (3, ⟨b.pos, c.pos⟩),
      (2, ⟨a.pos, b.pos⟩), (1, ⟨s.pos, a.pos⟩)] := by
    rw [hgt, hgd, hgc, hgb, hga, hgroups]
  have htexts : Block.ofMatch text ⟨⟨s.pos, t.pos⟩, t.groups⟩ [] =
      ⟨Span.of ⟨s.pos, a.pos⟩ text, Span.of ⟨a.pos, b.pos⟩ text, Span.of ⟨b.pos, c.pos⟩ text,
        Span.of ⟨c.pos, d.pos⟩ text, Span.of ⟨d.pos, t.pos⟩ text, []⟩ := by
    rw [hall]
    simp only [Block.ofMatch, Block.mk.injEq, and_true]
    refine ⟨?_, ?_, ?_, ?_, ?_⟩ <;> exact String.toList_ofList
  rw [htexts, Block.chars, append_nil]
  simp only [append_assoc]
  rw [Span.of_append_drop hlt, Span.of_append_drop hld, Span.of_append_drop hlc,
    Span.of_append_drop hlb, Span.of_append_drop hla]

namespace Transcript

theorem chars_ofMatches {f : SubtitleFormat} {text : List Char} {lo : Nat} {m : Found}
    {ms : List Found} (h : f.cuePattern.FindsAll false text lo (m :: ms)) :
    (ofMatches text m ms).1.flatMap Block.chars ++ (ofMatches text m ms).2 =
      text.drop m.span.start := by
  induction ms generalizing lo m with
  | nil =>
    rw [chars_of_finds h.1, ofMatches]
    simp
  | cons m' ms ih =>
    obtain ⟨hm, hms⟩ := h
    have hgap : (Block.ofMatch text m (Span.of ⟨m.span.stop, m'.span.start⟩ text)).chars =
        (Block.ofMatch text m []).chars ++ Span.of ⟨m.span.stop, m'.span.start⟩ text := by
      simp [Block.chars, Block.ofMatch]
    rw [ofMatches]
    dsimp only
    rw [flatMap_cons, append_assoc, ih hms, hgap, append_assoc,
      Span.of_append_drop hms.1.le_start, chars_of_finds hm]

theorem chars_of (f : SubtitleFormat) (text : List Char) : (of f text).chars = text := by
  have hfinds := @findAll_finds false f.cuePattern text
  rw [of]
  split
  · simp [chars]
  · next m ms hms =>
    rw [hms] at hfinds
    dsimp only
    rw [chars, append_assoc, chars_ofMatches hfinds, take_append_drop]

end Transcript

theorem TimeFormat.text_ok (f : TimeFormat) (q : Rat) : ∃ t, f.text (.frac q) = .ok t := by
  have hclock {q : Rat} (hq : 0 ≤ q) : ∃ t, ClockTime.ofSeconds (.frac q) = .ok t := by
    obtain ⟨x, -, hx⟩ := ClockTime.ofSeconds_frac hq
    exact ⟨_, hx⟩
  have hsign : (frac q).lt 0 = true ↔ q < (0 : Nat) :=
    lt_iff_of_toRat? rfl (toRat?_ofNat 0)
  rw [Nat.cast_zero] at hsign
  rw [text]
  split
  · next hneg =>
    obtain ⟨t, ht⟩ := hclock (neg_nonneg.2 (hsign.1 hneg).le)
    exact ⟨_, by rw [show (frac q).neg = .frac (-q) from rfl, ht]; rfl⟩
  · next hpos =>
    obtain ⟨t, ht⟩ := hclock (not_lt.1 (hsign.not.1 hpos))
    exact ⟨_, by rw [ht]; rfl⟩

namespace Cue

def glyphs (f : SubtitleFormat) (tb : Rat) (cue : Cue) : Except Fault (List Glyph) := do
  if tb = 0 then .error .divisionByZero
  else
    let start ← f.timeFormat.text (.frac (cue.start / tb))
    let stop ← f.timeFormat.text (.frac (cue.stop / tb))
    return plain cue.before.toList ++ .time start.toList ::
      (plain cue.middle.toList ++ .time stop.toList :: plain cue.after.toList)

theorem text_eq (f : SubtitleFormat) (tb : Rat) (cue : Cue) :
    cue.text f tb = (cue.glyphs f tb).map fun gs => String.ofList (gs.flatMap Glyph.chars) := by
  rw [text, glyphs]
  split
  · rfl
  · obtain ⟨a, ha⟩ := f.timeFormat.text_ok (cue.start / tb)
    obtain ⟨b, hb⟩ := f.timeFormat.text_ok (cue.stop / tb)
    rw [ha, hb]
    simp only [ok_bind, pure, Except.pure, Except.map, flatMap_append, flatMap_cons,
      flatMap_chars_plain, Glyph.chars]
    apply congrArg Except.ok
    apply String.toList_injective
    simp

theorem ofMatch_eq_ok {f : SubtitleFormat} {tb : Rat} {text : List Char} {m : Found} {cue : Cue} :
    ofMatch f tb text m = .ok cue ↔ ∃ start stop, f.tickOf tb (m.groupText 2 text) = .ok start ∧
      f.tickOf tb (m.groupText 4 text) = .ok stop ∧
      cue = ⟨start, stop, m.groupText 1 text, m.groupText 3 text, m.groupText 5 text ++ "\n"⟩ := by
  simp only [ofMatch, bind_eq_ok, pure_eq_ok]
  grind

end Cue

namespace Subtitles

def glyphs (s : Subtitles) : Except Fault (List Glyph) := do
  match s.header with
  | none => .error .noField
  | some header =>
    let cues ← s.cues.mapM (Cue.glyphs s.format s.tb)
    match s.footer with
    | none => .error .noField
    | some footer => return plain header.toList ++ cues.flatten ++ plain footer.toList

theorem text_eq (s : Subtitles) :
    s.text = s.glyphs.map fun gs => String.ofList (gs.flatMap Glyph.chars) := by
  have hcues : s.cues.mapM (Cue.text s.format s.tb) = (s.cues.mapM (Cue.glyphs s.format s.tb)).map
      (map fun gs => String.ofList (gs.flatMap Glyph.chars)) := by
    rw [← mapM_map_ok]
    congr 1
    funext cue
    exact Cue.text_eq s.format s.tb cue
  rw [text, glyphs, hcues]
  cases s.header with
  | none => rfl
  | some header =>
    cases s.cues.mapM (Cue.glyphs s.format s.tb) with
    | error e => rfl
    | ok gss =>
      cases s.footer with
      | none => rfl
      | some footer =>
        have hflat : gss.flatten.flatMap Glyph.chars = gss.flatMap (·.flatMap Glyph.chars) := by
          rw [flatten_eq_flatMap, flatMap_assoc]
          rfl
        apply congrArg Except.ok
        apply String.toList_injective
        simp [String.toList_join, flatMap_map, hflat]

end Subtitles

def Block.Readable (f : SubtitleFormat) (tb : Rat) (b : Block) : Prop :=
  (∃ n, f.tickOf tb (String.ofList b.start) = .ok n) ∧ ∃ n, f.tickOf tb (String.ofList b.stop) = .ok n

namespace Cue

variable {f : SubtitleFormat} {tb : Rat} {text gap : List Char}

theorem exists_ofMatch_iff {m : Found} :
    (∃ cue, ofMatch f tb text m = .ok cue) ↔ (Block.ofMatch text m gap).Readable f tb := by
  simp only [ofMatch_eq_ok, Block.Readable, Block.ofMatch, String.ofList_toList]
  grind

theorem rewrites_of_ofMatch (htb : tb ≠ 0) {m : Found} {cue : Cue}
    (h : ofMatch f tb text m = .ok cue) :
    ∃ gs, cue.glyphs f tb = .ok gs ∧ (Block.ofMatch text m gap).Rewrites gs := by
  obtain ⟨a, ha⟩ := f.timeFormat.text_ok (cue.start / tb)
  obtain ⟨b, hb⟩ := f.timeFormat.text_ok (cue.stop / tb)
  obtain ⟨start, stop, -, -, rfl⟩ := ofMatch_eq_ok.1 h
  refine ⟨_, ?_, a.toList, b.toList, rfl⟩
  rw [glyphs, if_neg htb, ha, hb]
  simp [Block.ofMatch]

theorem ofMatches_eq_none_iff {ms : List Found} {cues : List Cue} :
    ofMatches f tb text ms = (cues, none) ↔
      Forall₂ (fun m cue => ofMatch f tb text m = .ok cue) ms cues := by
  induction ms generalizing cues with
  | nil => simp [ofMatches, eq_comm]
  | cons m ms ih =>
    rw [ofMatches]
    cases cues with
    | nil => cases ofMatch f tb text m <;> simp
    | cons cue cues =>
      rw [forall₂_cons, ← ih]
      cases ofMatch f tb text m <;> simp [Prod.ext_iff, and_assoc]

end Cue

namespace Transcript

theorem forall₂_ofMatches (text : List Char) (m : Found) (ms : List Found) :
    Forall₂ (fun m b => ∃ gap, b = Block.ofMatch text m gap) (m :: ms)
      (ofMatches text m ms).1 := by
  induction ms generalizing m with
  | nil => exact .cons ⟨_, rfl⟩ .nil
  | cons m' ms ih => exact .cons ⟨_, rfl⟩ (ih m')

theorem blocks_ne_nil {f : SubtitleFormat} {text : List Char}
    (h : f.cuePattern.findAll false text ≠ []) : (of f text).blocks ≠ [] := by
  obtain ⟨m, ms, hms⟩ := exists_cons_of_ne_nil h
  rw [of, hms]
  cases ms <;> simp [ofMatches]

theorem footer_ofMatches (text : List Char) (m : Found) (ms : List Found) :
    (ofMatches text m ms).2 = text.drop (((m :: ms).getLast?.map (·.span.stop)).getD 0) := by
  induction ms generalizing m with
  | nil => rfl
  | cons m' ms ih => exact (ih m').trans (by simp)

variable {f : SubtitleFormat} {tb : Rat} {text : List Char} {ms : List Found} {bs : List Block}
  {gss : List (List Glyph)}

theorem exists_cues_iff (h : Forall₂ (fun m b => ∃ gap, b = Block.ofMatch text m gap) ms bs) :
    (∃ cues, Cue.ofMatches f tb text ms = (cues, none)) ↔ ∀ b ∈ bs, b.Readable f tb := by
  simp only [Cue.ofMatches_eq_none_iff, ← mapM_eq_ok, mapM_ok_iff]
  induction h with
  | nil => simp
  | cons hb hbs ih =>
    obtain ⟨gap, rfl⟩ := hb
    rw [forall_mem_cons, forall_mem_cons, ih, Cue.exists_ofMatch_iff]

theorem exists_rewrites (htb : tb ≠ 0) {cues : List Cue}
    (hbs : Forall₂ (fun m b => ∃ gap, b = Block.ofMatch text m gap) ms bs)
    (hcues : Cue.ofMatches f tb text ms = (cues, none)) :
    ∃ gss, cues.mapM (Cue.glyphs f tb) = .ok gss ∧ Forall₂ Block.Rewrites bs gss := by
  rw [Cue.ofMatches_eq_none_iff] at hcues
  simp only [mapM_eq_ok]
  induction hbs generalizing cues with
  | nil =>
    cases hcues
    exact ⟨[], .nil, .nil⟩
  | cons hb hbs ih =>
    obtain ⟨gap, rfl⟩ := hb
    cases hcues with
    | cons hcue hcues =>
      obtain ⟨gs, hgs, hrewrites⟩ := Cue.rewrites_of_ofMatch htb hcue
      obtain ⟨gss, hgss, hall⟩ := ih hcues
      exact ⟨gs :: gss, .cons hgs hgss, .cons hrewrites hall⟩

theorem occur_of_rewrites (h : Forall₂ Block.Rewrites bs gss)
    (hgap : ∀ b ∈ bs, ∀ c ∈ b.gap, c = '\n') {ps : List (List Char)} {gs : List Glyph}
    (hocc : Occur ps gs) : Occur (bs.flatMap Block.pieces ++ ps) (gss.flatten ++ gs) := by
  induction h with
  | nil => exact hocc
  | cons hb hbs ih =>
    rw [forall_mem_cons] at hgap
    rw [flatMap_cons, append_assoc, flatten_cons, append_assoc]
    exact hb.occur hgap.1 (ih hgap.2)

theorem ink_rewrites (h : Forall₂ Block.Rewrites bs gss) :
    ink (bs.flatMap Block.pieces).flatten =
      ink (gss.flatten.flatMap plainChars) + ink (bs.flatMap Block.gap) := by
  induction h with
  | nil => rfl
  | cons hb hbs ih =>
    rw [flatMap_cons, flatten_append, ink_append, hb.ink_eq, ih, flatten_cons,
      flatMap_append, flatMap_cons, ink_append, ink_append]
    omega

end Transcript

namespace Subtitles

def ofTranscript (f : SubtitleFormat) (tb : Rat) (t : Transcript) (cues : List Cue) : Subtitles :=
  ⟨f, tb, some (String.ofList t.header), cues, some (String.ofList t.footer)⟩

theorem parse_eq_none_iff {f : SubtitleFormat} {tb : Rat} (htb : tb ≠ 0) {text : String}
    (hfound : f.cuePattern.findAll false text.toList ≠ []) :
    ((∃ s, parse f tb text = (s, none)) ↔
      ∀ b ∈ (of f text.toList).blocks, b.Readable f tb) ∧
    ∀ s, parse f tb text = (s, none) → ∃ gss,
      s.glyphs = .ok (plain (of f text.toList).header ++ gss.flatten ++
        plain (of f text.toList).footer) ∧
      Forall₂ Block.Rewrites (of f text.toList).blocks gss := by
  obtain ⟨m, ms, hms⟩ := exists_cons_of_ne_nil hfound
  have hblocks := forall₂_ofMatches text.toList m ms
  have hfooter := footer_ofMatches text.toList m ms
  have hof : of f text.toList = ⟨text.toList.take m.span.start,
      (ofMatches text.toList m ms).1, (ofMatches text.toList m ms).2⟩ := by
    rw [of, hms]
  have hparse : ∀ s, parse f tb text = (s, none) ↔ ∃ cues,
      Cue.ofMatches f tb text.toList (m :: ms) = (cues, none) ∧
        s = ofTranscript f tb (of f text.toList) cues := by
    intro s
    rw [parse, hms, hof]
    simp only [ofTranscript, hfooter]
    rcases Cue.ofMatches f tb text.toList (m :: ms) with ⟨cues, e⟩
    cases e with
    | none => simp [eq_comm]
    | some e => simp
  simp only [hparse]
  constructor
  · rw [hof, ← exists_cues_iff hblocks]
    constructor
    · rintro ⟨s, cues, hcues, -⟩
      exact ⟨cues, hcues⟩
    · rintro ⟨cues, hcues⟩
      exact ⟨_, cues, hcues, rfl⟩
  · rintro s ⟨cues, hcues, rfl⟩
    rw [hof]
    obtain ⟨gss, hgss, hrewrites⟩ := exists_rewrites htb hblocks hcues
    refine ⟨gss, ?_, hrewrites⟩
    simp only [glyphs, ofTranscript, hgss, ok_bind, String.toList_ofList]
    rfl

theorem glyphs_parse_of_none {f : SubtitleFormat} {tb : Rat} {text : String}
    (hnone : f.cuePattern.findAll false text.toList = []) :
    ∃ s, parse f tb text = (s, none) ∧ s.glyphs = .ok [] := by
  refine ⟨⟨f, tb, some "", [], some ""⟩, ?_, rfl⟩
  rw [parse, hnone]

/-- When the text is read and written, all of it that is no time still stands there, in order. -/
def Keeps (f : SubtitleFormat) (tb : Rat) (text : String) : Prop :=
  ∃ s gs, parse f tb text = (s, none) ∧ s.glyphs = .ok gs ∧
    s.text = .ok (String.ofList (gs.flatMap Glyph.chars)) ∧
    Occur (of f text.toList).pieces gs

variable {f : SubtitleFormat} {tb : Rat} {text : String}

theorem keeps_iff_of_found (htb : tb ≠ 0) (hfound : f.cuePattern.findAll false text.toList ≠ []) :
    Keeps f tb text ↔
      ∀ b ∈ (of f text.toList).blocks, b.Readable f tb ∧ ∀ c ∈ b.gap, c = '\n' := by
  obtain ⟨hread, hwrite⟩ := parse_eq_none_iff htb hfound
  rw [Keeps]
  generalize of f text.toList = t at *
  constructor
  · rintro ⟨s, gs, hs, hgs, -, hocc⟩
    obtain ⟨gss, hgss, hrewrites⟩ := hwrite s hs
    obtain rfl := Except.ok.inj (hgs.symm.trans hgss)
    have hink := hocc.ink_le
    have hpieces := ink_rewrites hrewrites
    simp only [pieces, flatten_cons, flatten_append, flatten_nil,
      flatMap_append, flatMap_plainChars_plain, ink_append, append_nil] at hink
    have hgaps : ink (t.blocks.flatMap Block.gap) = 0 := by omega
    rw [ink_eq_zero_iff] at hgaps
    refine fun b hb => ⟨hread.1 ⟨s, hs⟩ b hb, fun c hc => ?_⟩
    exact hgaps c (mem_flatMap.2 ⟨b, hb, hc⟩)
  · intro h
    obtain ⟨s, hs⟩ := hread.2 fun b hb => (h b hb).1
    obtain ⟨gss, hgss, hrewrites⟩ := hwrite s hs
    refine ⟨s, _, hs, hgss, by rw [text_eq, hgss]; rfl, ?_⟩
    have hfooter : Occur [t.footer] (plain t.footer ++ []) := Occur.nil.piece
    rw [append_nil] at hfooter
    rw [pieces, append_assoc]
    exact (occur_of_rewrites hrewrites (fun b hb => (h b hb).2) hfooter).piece

theorem keeps_iff_of_none (hnone : f.cuePattern.findAll false text.toList = []) :
    Keeps f tb text ↔ text = "" := by
  obtain ⟨s, hs, hgs⟩ := @glyphs_parse_of_none f tb text hnone
  rw [Keeps, show of f text.toList = ⟨text.toList, [], []⟩ by rw [of, hnone]]
  constructor
  · rintro ⟨s', gs, hs', hgs', -, hocc⟩
    obtain ⟨rfl, -⟩ := Prod.mk.inj (hs.symm.trans hs')
    obtain rfl := Except.ok.inj (hgs.symm.trans hgs')
    exact String.toList_eq_nil_iff.1 hocc.eq_nil
  · rintro rfl
    exact ⟨s, [], hs, hgs, by rw [text_eq, hgs]; rfl, Occur.nil.piece.piece⟩

/-- All text that is no time is still there after reading and writing just if all times can be read
and only line feeds stand between two cues. Of a text without cues nothing is left. -/
theorem keeps_iff (f : SubtitleFormat) {tb : Rat} (htb : tb ≠ 0) (text : String) :
    (Transcript.of f text.toList).chars = text.toList ∧
    (Keeps f tb text ↔ ((Transcript.of f text.toList).blocks = [] → text = "") ∧
      ∀ b ∈ (Transcript.of f text.toList).blocks, b.Readable f tb ∧ ∀ c ∈ b.gap, c = '\n') := by
  refine ⟨chars_of f _, ?_⟩
  by_cases hfound : f.cuePattern.findAll false text.toList = []
  · simp [keeps_iff_of_none hfound, of, hfound]
  · simp [keeps_iff_of_found htb hfound, blocks_ne_nil hfound]

theorem keeps_iff_two_cues : Keeps .webvtt 1 "v\n\n00:1 --> 00:2\na\n\n00:3 --> 00:4\nb\nc" := by
  have hblocks :
      (of .webvtt "v\n\n00:1 --> 00:2\na\n\n00:3 --> 00:4\nb\nc".toList).blocks =
      [⟨[], "00:1".toList, " --> ".toList, "00:2".toList, "\na".toList, "\n\n".toList⟩,
        ⟨[], "00:3".toList, " --> ".toList, "00:4".toList, "\nb".toList, []⟩] := by
    decide +kernel
  have hread : tickOf .webvtt 1 "00:1" = .ok 1 ∧
      tickOf .webvtt 1 "00:2" = .ok 2 ∧
      tickOf .webvtt 1 "00:3" = .ok 3 ∧
      tickOf .webvtt 1 "00:4" = .ok 4 := by
    decide +kernel
  refine (keeps_iff .webvtt (by norm_num) _).2.2 ?_
  rw [hblocks]
  simp [Block.Readable, hread]

theorem text_parse_second_line :
    (parse .webvtt 1 "00:1 --> 00:2\na\nb\n00:3 --> 00:4\nc").1.text =
        .ok "00:01.000 --> 00:02.000\na\n00:03.000 --> 00:04.000\nc\n" ∧
      (parse .webvtt 1 "0:0:1 --> 0:0:2\na").1.text = .ok "" := by
  decide +kernel

end Subtitles

end Jumpcut
