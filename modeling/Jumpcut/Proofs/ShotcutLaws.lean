import Jumpcut.Exchange.Shotcut
import Jumpcut.Proofs.ClipLaws
import Jumpcut.Proofs.SpeedLaws
import Jumpcut.Proofs.TextLaws
import Jumpcut.Proofs.WorkspaceLaws
import Jumpcut.Proofs.XmlLaws

namespace Jumpcut

open Outcome List Session

namespace Shotcut

open Xml

/-- What a clip is called: a chain by its number among all clips, a producer by its number among
those at another speed. -/
inductive Name : Type
  | chain : Nat → Name
  | producer : Nat → Name

namespace Name

def text : Name → String
  | .chain n => "chain" ++ toString n
  | .producer n => "producer" ++ toString n

theorem chain_ne_producer (m n : Nat) : (chain m).text ≠ (producer n).text := by
  intro h
  have hhead := congrArg (·.toList.head?) h
  simp [text] at hhead

theorem text_injective : Function.Injective text := by
  intro m n h
  cases m with
  | chain a =>
    cases n with
    | chain b => rw [label_inj.1 h]
    | producer b => exact absurd h (chain_ne_producer a b)
  | producer a =>
    cases n with
    | chain b => exact absurd h.symm (chain_ne_producer b a)
    | producer b => rw [label_inj.1 h]

theorem text_ne_background (n : Name) : n.text ≠ "bg" := by
  intro h
  have hhead := congrArg (·.toList.head?) h
  cases n <;> simp [text] at hhead

def Fresh (chains producers : Nat) : Name → Prop
  | .chain n => chains ≤ n
  | .producer n => producers ≤ n

theorem Fresh.mono {a a' b b' : Nat} {n : Name} (h : n.Fresh a' b') (ha : a ≤ a') (hb : b ≤ b') :
    n.Fresh a b := by
  cases n with
  | chain k => exact ha.trans h
  | producer k => exact hb.trans h

end Name

/-- The kept chunks and the names of their clips; `chains` clips came before, `producers` of them at
another speed. -/
def called (chains producers : Nat) : List Chunk → List (Chunk × Name)
  | [] => []
  | c :: cs =>
    if c.isCut then called chains producers cs
    else if isNormal c then (c, .chain chains) :: called (chains + 1) producers cs
    else (c, .producer producers) :: called (chains + 1) (producers + 1) cs

section

variable {src : Source} {tb : Rat} {a b : Nat} {cs : List Chunk} {xs : List Xml} {c : Chunk}
  {x : Xml}

theorem map_fst_called : (called a b cs).map Prod.fst = Chunk.kept cs := by
  induction cs generalizing a b with
  | nil => rfl
  | cons c cs ih =>
    cases hcut : c.isCut <;> cases hn : isNormal c <;> simp [called, Chunk.kept, hcut, hn, ih]

theorem fresh_of_mem_called {p : Chunk × Name} (hp : p ∈ called a b cs) : p.2.Fresh a b := by
  induction cs generalizing a b with
  | nil => cases hp
  | cons c cs ih =>
    rw [called] at hp
    split at hp
    · exact ih hp
    · split at hp
      · rcases mem_cons.1 hp with rfl | hp
        · exact le_refl a
        · exact (ih hp).mono a.le_succ le_rfl
      · rcases mem_cons.1 hp with rfl | hp
        · exact le_refl b
        · exact (ih hp).mono a.le_succ b.le_succ

theorem nodup_called : ((called a b cs).map Prod.snd).Nodup := by
  induction cs generalizing a b with
  | nil => exact .nil
  | cons c cs ih =>
    have hnew {a' b' : Nat} {n : Name} (hn : ¬ n.Fresh a' b') :
        n ∉ (called a' b' cs).map Prod.snd := by
      intro hmem
      obtain ⟨p, hp, rfl⟩ := mem_map.1 hmem
      exact hn (fresh_of_mem_called hp)
    rw [called]
    split
    · exact ih
    · split
      · exact nodup_cons.2 ⟨hnew (Nat.not_succ_le_self a), ih⟩
      · exact nodup_cons.2 ⟨hnew (Nat.not_succ_le_self b), ih⟩

theorem step_eq_ok {make : Chunk × Name → Except Fault Xml} {p : Chunk × Name}
    {ps : List (Chunk × Name)} {rest : Except Fault (List Xml)}
    (hrest : ∀ {ys}, rest = .ok ys ↔ Forall₂ (fun p x => make p = .ok x) ps ys) :
    (do return (← make p) :: (← rest)) = Except.ok xs ↔
      Forall₂ (fun p x => make p = .ok x) (p :: ps) xs := by
  simp only [bind_eq_ok, pure_eq_ok, forall₂_cons_left_iff, hrest]
  constructor
  · rintro ⟨x, hx, ys, hys, rfl⟩
    exact ⟨x, ys, hx, hys, rfl⟩
  · rintro ⟨x, ys, hx, hys, rfl⟩
    exact ⟨x, hx, ys, hys, rfl⟩

theorem definitions_eq_ok : definitions src tb a b cs = .ok xs ↔
    Forall₂ (fun p x => definition src tb p.2.text p.1 = .ok x) (called a b cs) xs := by
  induction cs generalizing a b xs with
  | nil => simp [definitions, called, eq_comm]
  | cons c cs ih =>
    rw [definitions, called]
    split
    · exact ih
    · split
      · exact @step_eq_ok _ (fun p => definition src tb p.2.text p.1) (c, .chain a) _ _ ih
      · exact @step_eq_ok _ (fun p => definition src tb p.2.text p.1) (c, .producer b) _ _ ih

theorem entries_eq_ok : entries tb a b cs = .ok xs ↔
    Forall₂ (fun p x => entry tb p.2.text p.1 = .ok x) (called a b cs) xs := by
  induction cs generalizing a b xs with
  | nil => simp [entries, called, eq_comm]
  | cons c cs ih =>
    rw [entries, called]
    split
    · exact ih
    · cases isNormal c with
      | true => exact @step_eq_ok _ (fun p => entry tb p.2.text p.1) (c, .chain a) _ _ ih
      | false => exact @step_eq_ok _ (fun p => entry tb p.2.text p.1) (c, .producer b) _ _ ih

def producers (doc : Xml) : List Xml :=
  doc.children.filter fun x => x.tag == "chain" || x.tag == "producer"

def playlist (id : String) (doc : Xml) : List Xml :=
  (doc.children.find? fun x => x.tag == "playlist" && x.attr? "id" == some id).elim [] fun x =>
    x.children.filter (·.tag == "entry")

structure Defines (n : Name) (x : Xml) : Prop where
  tag : x.tag = "chain" ∨ x.tag = "producer"
  id : x.attr? "id" = some n.text
  noEntry : x.named "entry" = []

structure Plays (n : Name) (x : Xml) : Prop where
  tag : x.tag = "entry"
  producer : x.attr? "producer" = some n.text
  alone : x.named "entry" = [x]

theorem defines_of_definition {n : Name} (h : definition src tb n.text c = .ok x) :
    Defines n x := by
  simp only [definition, bind_eq_ok] at h
  obtain ⟨stop, -, out, -, next, -, length, -, h⟩ := h
  split at h
  · rw [pure_eq_ok] at h
    subst h
    exact ⟨.inl rfl, rfl, by simp [nodeWith, property, named, namedAll]⟩
  · rw [pure_eq_ok] at h
    subst h
    exact ⟨.inr rfl, rfl, by simp [nodeWith, property, named, namedAll]⟩

theorem entry_eq_ok {id : String} : entry tb id c = .ok x ↔
    ∃ first last, (firstTick c >>= (time · tb)) = .ok first ∧
      (lastTick c >>= (time · tb)) = .ok last ∧
      nodeWith "entry" [("producer", id), ("in", first), ("out", last)] [] = x := by
  simp only [entry, bind_eq_ok, pure_eq_ok]
  constructor
  · rintro ⟨start, hstart, stop, hstop, first, hfirst, last, hlast, rfl⟩
    exact ⟨first, last, ⟨start, hstart, hfirst⟩, ⟨stop, hstop, hlast⟩, rfl⟩
  · rintro ⟨first, last, ⟨start, hstart, hfirst⟩, ⟨stop, hstop, hlast⟩, rfl⟩
    exact ⟨start, hstart, stop, hstop, first, hfirst, last, hlast, rfl⟩

theorem plays_of_entry {n : Name} (h : entry tb n.text c = .ok x) : Plays n x := by
  obtain ⟨first, last, -, -, rfl⟩ := entry_eq_ok.1 h
  exact ⟨rfl, rfl, by simp [nodeWith, named, namedAll]⟩

theorem exists_frame {t : Timeline} {doc : Xml} (h : document t src cs = .ok doc) :
    ∃ out clips played, frame t out clips played = doc ∧
      Forall₂ (fun p x => definition src t.tb p.2.text p.1 = .ok x) (called 0 0 cs) clips ∧
      Forall₂ (fun p x => entry t.tb p.2.text p.1 = .ok x) (called 0 0 cs) played ∧
      Forall₂ Defines ((called 0 0 cs).map Prod.snd) clips ∧
      Forall₂ Plays ((called 0 0 cs).map Prod.snd) played := by
  simp only [document, bind_eq_ok, pure_eq_ok, definitions_eq_ok, entries_eq_ok] at h
  obtain ⟨-, -, out, -, clips, hclips, played, hplayed, rfl⟩ := h
  refine ⟨out, clips, played, rfl, hclips, hplayed, ?_, ?_⟩
  · exact forall₂_map_left_iff.2 (hclips.imp fun p x h => defines_of_definition h)
  · exact forall₂_map_left_iff.2 (hplayed.imp fun p x h => plays_of_entry h)

section

variable (t : Timeline) (out : String) {names : List Name} {clips played : List Xml}

theorem producers_frame (h : Forall₂ Defines names clips) :
    producers (frame t out clips played) = background t out :: clips := by
  have hall : ∀ x ∈ clips, (x.tag == "chain" || x.tag == "producer") = true := by
    intro x hx
    obtain ⟨n, -, hn⟩ := exists_of_mem_right h hx
    simpa using hn.tag
  simp [producers, frame, nodeWith, background, filter_eq_self.2 hall]

theorem playlist_frame (hclips : Forall₂ Defines names clips)
    (hplayed : Forall₂ Plays names played) :
    playlist "playlist0" (frame t out clips played) = played := by
  have hnone : clips.find? (fun x => x.tag == "playlist" && x.attr? "id" == some "playlist0") =
      none := by
    rw [find?_eq_none]
    intro x hx
    obtain ⟨n, -, hn⟩ := exists_of_mem_right hclips hx
    rcases hn.tag with htag | htag <;> simp [htag]
  have hall : ∀ x ∈ played, (x.tag == "entry") = true := by
    intro x hx
    obtain ⟨n, -, hn⟩ := exists_of_mem_right hplayed hx
    simpa using hn.tag
  simp [playlist, frame, nodeWith, background, property, hnone, filter_eq_self.2 hall]

theorem named_frame (hclips : Forall₂ Defines names clips)
    (hplayed : Forall₂ Plays names played) :
    ∃ e, e.attr? "producer" = some "bg" ∧
      (frame t out clips played).named "entry" = e :: played := by
  have hnone : namedAll "entry" clips = [] := namedAll_eq_nil fun x hx => by
    obtain ⟨n, -, hn⟩ := exists_of_mem_right hclips hx
    exact hn.noEntry
  have hself : namedAll "entry" played = played := namedAll_eq_self fun x hx => by
    obtain ⟨n, -, hn⟩ := exists_of_mem_right hplayed hx
    exact hn.alone
  refine ⟨.element "entry" [("producer", "bg"), ("in", "00:00:00.000"), ("out", out)] (some "1") [],
    rfl, ?_⟩
  simp [frame, nodeWith, background, property, named, namedAll, namedAll_append, hnone, hself]

end

end

end Shotcut

open Shotcut

theorem Timeline.writeShotcut_eq_ok {t : Timeline} {src : Source} {cs : List Chunk} {path : String}
    {w w' : Workspace} (hchunks : t.chunks = some cs) (hsrc : t.source "0" = .ok src) :
    t.writeShotcut path w = .ok () w' ↔
      ∃ doc, document t src cs = .ok doc ∧ writeText path doc.document w = .ok () w' := by
  rw [writeShotcut, hchunks]
  simp only [hsrc, ok_bind, run_bind_eq_ok, ofExcept_eq_ok]
  constructor
  · rintro ⟨doc, r, ⟨hdoc, rfl⟩, hwritten⟩
    exact ⟨doc, hdoc, hwritten⟩
  · rintro ⟨doc, hdoc, hwritten⟩
    exact ⟨doc, w, ⟨hdoc, rfl⟩, hwritten⟩

/-- The list of what is played refers, entry by entry, to the clips that were defined for the kept
chunks. No two chains or producers have the same name, and each is referred to. -/
theorem Timeline.writeShotcut_plays_defined {t : Timeline} {src : Source} {cs : List Chunk}
    {path : String} {w w' : Workspace} (hchunks : t.chunks = some cs)
    (hsrc : t.source "0" = .ok src) (hwrite : t.writeShotcut path w = .ok () w') :
    ∃ doc back clips, w'.tree.read? (absolutePath path) = some doc.document.toUTF8 ∧
      producers doc = back :: clips ∧
      Forall₂ (fun c x => ∃ id, definition src t.tb id c = .ok x) (Chunk.kept cs) clips ∧
      (playlist "playlist0" doc).map (·.attr? "producer") = clips.map (·.attr? "id") ∧
      ((producers doc).map (·.attr? "id")).Nodup ∧
      ∀ x ∈ producers doc, ∃ id, x.attr? "id" = some id ∧
        ∃ e ∈ doc.named "entry", e.attr? "producer" = some id := by
  obtain ⟨doc, hdoc, hwritten⟩ := (writeShotcut_eq_ok hchunks hsrc).1 hwrite
  obtain ⟨out, clips, played, rfl, hclips, -, hdefined, hplays⟩ := exists_frame hdoc
  have hids := map_eq_of_forall₂ (hdefined.imp fun n x h => h.id)
  have hrefs := map_eq_of_forall₂ (hplays.imp fun n x h => h.producer)
  obtain ⟨e, he, hnamed⟩ := named_frame t out hdefined hplays
  refine ⟨_, Shotcut.background t out, clips, read?_of_writeText hwritten,
    producers_frame t out hdefined, ?_, ?_, ?_, ?_⟩
  · rw [← map_fst_called (a := 0) (b := 0), forall₂_map_left_iff]
    exact hclips.imp fun p x h => ⟨p.2.text, h⟩
  · rw [playlist_frame t out hdefined hplays, hids, hrefs]
  · rw [producers_frame t out hdefined, map_cons, hids, nodup_cons]
    constructor
    · intro hmem
      obtain ⟨n, -, hn⟩ := mem_map.1 hmem
      exact n.text_ne_background (Option.some_inj.1 hn)
    · exact nodup_called.map fun m n h => Name.text_injective (Option.some_inj.1 h)
  · rw [producers_frame t out hdefined, hnamed, forall_mem_cons]
    refine ⟨⟨"bg", rfl, e, .head _, he⟩, ?_⟩
    intro x hx
    obtain ⟨n, hn, hdef⟩ := exists_of_mem_right hdefined hx
    obtain ⟨y, hy, hplay⟩ := exists_of_mem_right hplays.flip hn
    exact ⟨n.text, hdef.id, y, .tail _ hy, hplay.producer⟩

def song : Timeline where
  sources := [("0", ⟨"a.mp3", "0", .null, .str "", .null, [], [⟨"mp3", 48000, none, .null, .null⟩],
    []⟩)]
  tb := 30
  rate := 48000
  resolution := (4, 2)
  background := "#000"
  v := []
  a := []
  chunks := some [⟨0, 3, 1⟩, ⟨3, 6, .float 2.0⟩, ⟨6, 9, 99999⟩, ⟨9, 10, .float 1.0⟩, ⟨10, 14, 3⟩]

def emptyFolder : Workspace := { emptyWorkspace with tree := ⟨[], ["/work"]⟩ }

theorem Timeline.writeShotcut_plays_defined_song :
    ∃ w' doc back clips, song.writeShotcut "o.mlt" emptyFolder = .ok () w' ∧
      producers doc = back :: clips ∧
      (playlist "playlist0" doc).map (·.attr? "producer") = clips.map (·.attr? "id") ∧
      ((producers doc).map (·.attr? "id")).Nodup := by
  have hends : (song.writeShotcut "o.mlt").run' emptyFolder = some () := by
    decide +kernel
  obtain ⟨w', hwrite⟩ := run'_eq_some.1 hends
  obtain ⟨doc, back, clips, -, hproducers, -, hplayed, hnames, -⟩ :=
    writeShotcut_plays_defined rfl rfl hwrite
  exact ⟨w', doc, back, clips, hwrite, hproducers, hplayed, hnames⟩

end Jumpcut
