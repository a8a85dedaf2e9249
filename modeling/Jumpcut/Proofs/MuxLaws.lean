import Jumpcut.Render.Mux
import Jumpcut.Proofs.DecimalLaws
import Jumpcut.Proofs.OutcomeLaws

namespace Jumpcut

open Outcome List

namespace Command

def switches : List String := ["-hide_banner", "-y"]

/-- The options of a command with their values. A word that is left at the end names the output. -/
def parse : List String → List (String × String)
  | name :: value :: rest =>
    if name ∈ switches then parse (value :: rest) else (name, value) :: parse rest
  | _ => []

def pick (name : String) (os : List (String × String)) : List String :=
  os.filterMap fun o => if o.1 = name then some o.2 else none

def inputs (words : List String) : List String := pick "-i" (parse words)

def mappings (words : List String) : List String := pick "-map" (parse words)

def words (os : List (String × String)) : List String := os.flatMap fun o => [o.1, o.2]

@[simp] theorem words_append (os ps : List (String × String)) :
    words (os ++ ps) = words os ++ words ps :=
  flatMap_append

variable {os : List (String × String)} {ws : List String}

theorem parse_words (h : ∀ o ∈ os, o.1 ∉ switches) (rest : List String) :
    parse (words os ++ rest) = os ++ parse rest := by
  induction os with
  | nil => rfl
  | cons o os ih =>
    obtain ⟨hname, hos⟩ := forall_mem_cons.1 h
    change parse (o.1 :: o.2 :: (words os ++ rest)) = _
    rw [parse, if_neg hname, ih hos]
    rfl

theorem parse_switches (h : ∀ w ∈ ws, w ∈ switches) {rest : List String} (hrest : rest ≠ []) :
    parse (ws ++ rest) = parse rest := by
  induction ws with
  | nil => rfl
  | cons w ws ih =>
    obtain ⟨hw, hws⟩ := forall_mem_cons.1 h
    obtain ⟨v, vs, hvs⟩ := exists_cons_of_ne_nil (append_ne_nil_of_right_ne_nil ws hrest)
    rw [cons_append, hvs, parse, if_pos hw, ← hvs, ih hws]

@[simp] theorem pick_append (name : String) (os ps : List (String × String)) :
    pick name (os ++ ps) = pick name os ++ pick name ps :=
  filterMap_append

theorem pick_map {α : Type} (name : String) (f : α → String) (xs : List α) :
    pick name (xs.map fun x => (name, f x)) = xs.map f := by
  simp [pick, filterMap_map]

theorem pick_eq_nil {name : String} (h : ∀ o ∈ os, o.1 ≠ name) : pick name os = [] :=
  filterMap_eq_nil_iff.2 fun o ho => if_neg (h o ho)

theorem mem_dropLast_of_parse {name : String} (h : name ∈ (parse ws).map Prod.fst) :
    name ∈ ws.dropLast := by
  fun_induction parse ws with
  | case1 word value rest hswitch ih =>
    rw [dropLast_cons_cons]
    exact .tail _ (ih h)
  | case2 word value rest hswitch ih =>
    rw [dropLast_cons_cons]
    rcases mem_cons.1 h with rfl | htail
    · exact .head _
    · cases rest with
      | nil => cases htail
      | cons w ws => exact .tail _ (.tail _ (ih htail))
  | case3 => cases h

end Command

open Command

inductive TrackKind : Type
  | video | audio | subtitle
  deriving DecidableEq

namespace TrackKind

def letter : TrackKind → String
  | .video => "v"
  | .audio => "a"
  | .subtitle => "s"

theorem letter_toList (k : TrackKind) : ∃ c, k.letter.toList = [c] := by
  cases k <;> exact ⟨_, rfl⟩

theorem eq_of_letter {k l : TrackKind} (h : k.letter = l.letter) : k = l := by
  cases k <;> cases l <;> first | rfl | exact absurd h (by decide)

def language (k : TrackKind) (i : Nat) : String :=
  "-metadata:s:" ++ k.letter ++ ":" ++ toString i

theorem language_inj {k l : TrackKind} {i j : Nat} :
    k.language i = l.language j ↔ k = l ∧ i = j := by
  constructor
  · intro h
    simp only [language, String.append_assoc, String.append_right_inj] at h
    obtain ⟨c, hc⟩ := k.letter_toList
    obtain ⟨d, hd⟩ := l.letter_toList
    have hchars := congrArg String.toList h
    simp only [String.toList_append, hc, hd, singleton_append, cons.injEq] at hchars
    have hkind : k = l := eq_of_letter (String.toList_injective (by rw [hc, hd, hchars.1]))
    refine ⟨hkind, ?_⟩
    rw [hkind, String.append_right_inj, String.append_right_inj] at h
    exact Nat.repr_inj.1 h
  · rintro ⟨rfl, rfl⟩
    rfl

theorem take_language (k : TrackKind) (i : Nat) :
    (k.language i).toList.take 5 = "-meta".toList := by
  rw [language, String.append_assoc, String.append_assoc, String.toList_append,
    take_append_of_le_length (by decide)]
  decide

theorem ne_language {word : String} (h : word.toList.take 5 ≠ "-meta".toList) (k : TrackKind)
    (i : Nat) : word ≠ k.language i := by
  rintro rfl
  exact h (k.take_language i)

theorem language_notMem {ws : List String} (h : ∀ w ∈ ws, w.toList.take 5 ≠ "-meta".toList)
    (k : TrackKind) (i : Nat) : k.language i ∉ ws :=
  fun hmem => ne_language (h _ hmem) k i rfl

end TrackKind

/-- How the names of options begin that put in a file, map one or set a language, and the words
that stand alone. -/
def reserved : List (List Char) :=
  ["-i", "-map", "-meta", "-hide", "-y"].map String.toList

def IsSetting (name : String) : Prop := name.toList.take 5 ∉ reserved

instance (name : String) : Decidable (IsSetting name) :=
  inferInstanceAs (Decidable (name.toList.take 5 ∉ reserved))

namespace IsSetting

variable {name : String}

theorem append {front : String} (h : IsSetting front) (hlength : 5 ≤ front.toList.length)
    (s : String) : IsSetting (front ++ s) := by
  rw [IsSetting, String.toList_append, take_append_of_le_length hlength]
  exact h

theorem ne_of_reserved (h : IsSetting name) {other : String}
    (hother : other.toList.take 5 ∈ reserved) : name ≠ other := by
  rintro rfl
  exact h hother

theorem notMem_switches (h : IsSetting name) : name ∉ switches := by
  have hall : ∀ w ∈ switches, w.toList.take 5 ∈ reserved := by decide
  exact fun hmem => h (hall name hmem)

theorem ne_language (h : IsSetting name) (k : TrackKind) (i : Nat) : name ≠ k.language i :=
  TrackKind.ne_language (fun heq => h (heq ▸ by decide)) k i

end IsSetting

def Settings (ws : List String) : Prop := ∃ os, ws = words os ∧ ∀ o ∈ os, IsSetting o.1

namespace Settings

theorem nil : Settings [] := ⟨[], rfl, by simp⟩

theorem pair {name : String} (h : IsSetting name) (value : String) : Settings [name, value] :=
  ⟨[(name, value)], rfl, by simpa using h⟩

theorem append {ws vs : List String} (hws : Settings ws) (hvs : Settings vs) :
    Settings (ws ++ vs) := by
  obtain ⟨os, rfl, hos⟩ := hws
  obtain ⟨ps, rfl, hps⟩ := hvs
  refine ⟨os ++ ps, (words_append os ps).symm, fun o ho => ?_⟩
  rcases mem_append.1 ho with h | h
  · exact hos o h
  · exact hps o h

theorem flatten {wss : List (List String)} (h : ∀ ws ∈ wss, Settings ws) :
    Settings wss.flatten := by
  induction wss with
  | nil => exact nil
  | cons ws wss ih =>
    obtain ⟨hws, hwss⟩ := forall_mem_cons.1 h
    exact hws.append (ih hwss)

theorem flag {name : String} (h : IsSetting name) (value : Option String) :
    Settings (flagUnlessUnset name value) := by
  rw [flagUnlessUnset.eq_def]
  split
  · exact nil
  · exact nil
  · exact pair h _

theorem ite {c : Prop} [Decidable c] {ws vs : List String} (hws : Settings ws)
    (hvs : Settings vs) : Settings (if c then ws else vs) := by
  split
  · exact hws
  · exact hvs

end Settings

theorem Options.videoFlags_settings (o : Options) : Settings o.videoFlags :=
  (((Settings.flag (by decide) _).append (.pair (by decide) _)).append
    (.flag (by decide) _)).append (.pair (by decide) _)

namespace MuxPlan

variable {p : MuxPlan} {temp : String} {cmd ws : List String} {k : TrackKind} {i : Nat}
  {langs : List Json}

theorem trackFlags_settings {v : VisualTrack} {k : Nat} (h : p.trackFlags v k = .ok ws) :
    Settings ws := by
  rw [trackFlags] at h
  refine of_ite h (fun h => ?_) fun h => of_ite h (fun h => ?_) fun h => ?_
  · obtain ⟨x, -, h⟩ := bind_eq_ok.1 h
    rw [← pure_eq_ok.1 h]
    refine .append ?_ (.ite (.pair (by decide) _) .nil)
    exact .ite p.options.videoFlags_settings (.pair (by decide) _)
  · rw [← pure_eq_ok.1 h]
    have hcodec : IsSetting ("-c:v:" ++ toString k) :=
      .append (by decide) (by decide) _
    have hdisposition : IsSetting ("-disposition:v:" ++ toString k) :=
      .append (by decide) (by decide) _
    exact (Settings.pair hcodec _).append (.pair hdisposition _)
  · rw [← pure_eq_ok.1 h]
    exact .nil

theorem subtitleFlags_settings (h : p.subtitleFlags = .ok ws) : Settings ws := by
  have hpair (c : String) : Settings ["-c:s", c] := .pair (by decide) c
  rw [subtitleFlags] at h
  split at h
  · cases h
    exact .nil
  · split at h
    · cases h
    · split at h
      · cases h
        exact hpair _
      · split at h
        · cases h
          exact .nil
        · split at h
          · cases h
            exact hpair _
          · split at h
            · cases h
            · cases h
              exact hpair _

theorem audioFlags_settings (p : MuxPlan) : Settings p.audioFlags :=
  .ite .nil ((Settings.flag (by decide) _).append (.flag (by decide) _))

theorem colorFlags_settings (h : p.colorFlags = .ok ws) : Settings ws := by
  rw [colorFlags] at h
  split at h
  · split at h
    · cases h
    · cases h
      exact (((Settings.flag (by decide) _).append (.flag (by decide) _)).append
        (.flag (by decide) _)).append (.flag (by decide) _)
  · cases h
    exact .nil

def languages (p : MuxPlan) : TrackKind → List Json
  | .video => p.src.videos.map (·.lang)
  | .audio => p.src.audios.map (·.lang)
  | .subtitle => p.src.subtitles.map (·.lang)

def filesOf (p : MuxPlan) (temp : String) : TrackKind → List String
  | .video => p.shown.map (·.path)
  | .audio => p.audioFiles temp
  | .subtitle => p.subs

/-- The number of the first input of a kind; the source is input 0. -/
def firstInput (p : MuxPlan) (temp : String) : TrackKind → Nat
  | .video => 1
  | .audio => 1 + (p.filesOf temp .video).length
  | .subtitle => 1 + (p.filesOf temp .video).length + (p.filesOf temp .audio).length

def mapped (p : MuxPlan) (temp : String) (cmd : List String) (k : TrackKind) : Nat :=
  (range (p.filesOf temp k).length).countP fun j =>
    toString (p.firstInput temp k + j) ++ ":0" ∈ mappings cmd

theorem length_audioFiles (p : MuxPlan) (temp : String) :
    (p.audioFiles temp).length = p.audioTracks := by
  rw [audioFiles, audioTracks]
  split <;> rfl

theorem length_files (p : MuxPlan) (temp : String) : (p.files temp).length = p.trackCount := by
  simp only [files, trackCount, length_append, length_map, length_audioFiles]
  omega

def languageOptions (k : TrackKind) (tracks : Nat) (langs : List Json) : List (String × String) :=
  (langs.take (tracks + 1)).zipIdx.flatMap fun l =>
    if l.1.isNull then [] else [(k.language l.2, "language=" ++ l.1.display)]

theorem words_languageOptions (k : TrackKind) (tracks : Nat) (langs : List Json) :
    words (languageOptions k tracks langs) = languageFlags k.letter tracks langs := by
  rw [words, languageOptions, languageFlags, flatMap_assoc]
  congr 1
  funext l
  obtain ⟨lang, i⟩ := l
  cases lang <;> rfl

theorem mem_languageOptions {l : TrackKind} {tracks : Nat} :
    l.language i ∈ (languageOptions k tracks langs).map Prod.fst ↔
      l = k ∧ i ≤ tracks ∧ ∃ lang, langs[i]? = some lang ∧ ¬ lang.isNull := by
  simp only [languageOptions, mem_map, mem_flatMap, Prod.exists,
    mem_zipIdx_iff_getElem?, getElem?_take]
  constructor
  · rintro ⟨name, value, ⟨lang, j, hj, hmem⟩, rfl⟩
    split at hmem
    · cases hmem
    · next hnull =>
      have hname := (Prod.mk.inj (mem_singleton.1 hmem)).1
      obtain ⟨rfl, rfl⟩ := TrackKind.language_inj.1 hname
      split at hj
      · exact ⟨rfl, by omega, lang, hj, hnull⟩
      · cases hj
  · rintro ⟨rfl, hle, lang, hlang, hnull⟩
    refine ⟨l.language i, "language=" ++ lang.display, ⟨lang, i, ?_, ?_⟩, rfl⟩
    · rw [if_pos (by omega), hlang]
    · rw [if_neg hnull]
      exact mem_singleton.2 rfl

theorem name_of_mem_languageOptions {tracks : Nat} {o : String × String}
    (h : o ∈ languageOptions k tracks langs) : ∃ i, o.1 = k.language i := by
  simp only [languageOptions, mem_flatMap] at h
  obtain ⟨l, -, hmem⟩ := h
  split at hmem
  · cases hmem
  · rw [mem_singleton.1 hmem]
    exact ⟨l.2, rfl⟩

def mapping (i : Nat) : String := toString i ++ ":0"

def allLanguages (p : MuxPlan) (temp : String) : List (String × String) :=
  [TrackKind.video, .audio, .subtitle].flatMap fun k =>
    languageOptions k (p.filesOf temp k).length (p.languages k)

theorem words_allLanguages (p : MuxPlan) (temp : String) :
    words (p.allLanguages temp) =
      languageFlags "v" p.shown.length (p.languages .video) ++
        languageFlags "a" p.audioTracks (p.languages .audio) ++
        languageFlags "s" p.subs.length (p.languages .subtitle) := by
  simp only [allLanguages, flatMap_cons, flatMap_nil, append_nil, words_append,
    words_languageOptions, filesOf, length_map, length_audioFiles, append_assoc]
  rfl

def lastWords (p : MuxPlan) : List String := ["-strict", "-2", "-map", "0:t?", p.out]

theorem words_inputs (files : List String) :
    words (files.map ("-i", ·)) = files.flatMap (["-i", ·]) :=
  flatMap_map _ _ _

theorem words_mappings (p : MuxPlan) :
    words ((range p.trackCount).map fun i => ("-map", mapping (i + 1))) = p.maps :=
  flatMap_map _ _ _

theorem parse_command (h : p.command temp = .ok cmd) : ∃ front back,
    (∀ o ∈ front ++ back, IsSetting o.1) ∧
    parse cmd = (p.src.path :: p.files temp).map ("-i", ·) ++
      (range p.trackCount).map (fun i => ("-map", mapping (i + 1))) ++ front ++
      p.allLanguages temp ++ back ++ parse (p.extraFlags ++ p.lastWords) := by
  simp only [command, bind_eq_ok, pure_eq_ok] at h
  obtain ⟨tracks, htracks, subs, hsubs, colors, hcolors, hcmd⟩ := h
  have hflags : Settings tracks.flatten := by
    refine .flatten fun ws hws => ?_
    obtain ⟨v, -, hv⟩ := exists_of_mem_right (mapM_eq_ok.1 htracks) hws
    exact trackFlags_settings hv
  have hmetadata : Settings ["-map_metadata", "0"] := .pair (by decide) "0"
  obtain ⟨front, hfront, hfrontSettings⟩ := hmetadata.append hflags
  obtain ⟨back, hback, hbackSettings⟩ :=
    ((subtitleFlags_settings hsubs).append p.audioFlags_settings).append
      (colorFlags_settings hcolors)
  refine ⟨front, back,
    fun o ho => (mem_append.1 ho).elim (hfrontSettings o) (hbackSettings o), ?_⟩
  generalize hos : (p.src.path :: p.files temp).map ("-i", ·) ++
    (range p.trackCount).map (fun i => ("-map", mapping (i + 1))) ++ front ++
    p.allLanguages temp ++ back = os
  have hwords : cmd = switches ++ (words os ++ (p.extraFlags ++ p.lastWords)) := by
    rw [← hcmd, ← hos]
    simp only [words_append, words_inputs, words_mappings, words_allLanguages, ← hfront, ← hback,
      lastWords, switches, languages, flatMap_cons, append_assoc, cons_append,
      nil_append]
  have hnames : ∀ o ∈ os, o.1 ∉ switches := by
    intro o ho
    simp only [← hos, mem_append, mem_map, allLanguages, mem_flatMap] at ho
    rcases ho with (((⟨file, -, rfl⟩ | ⟨i, -, rfl⟩) | hset) | ⟨k, -, hlang⟩) | hset
    · exact show "-i" ∉ switches by decide
    · exact show "-map" ∉ switches by decide
    · exact (hfrontSettings o hset).notMem_switches
    · obtain ⟨i, hi⟩ := name_of_mem_languageOptions hlang
      rw [hi]
      exact k.language_notMem (by decide) i
    · exact (hbackSettings o hset).notMem_switches
  rw [hwords, parse_switches (fun _ h => h) (by simp [lastWords]), parse_words hnames]

theorem mapping_injective : Function.Injective mapping := fun _ _ h =>
  Nat.repr_inj.1 ((String.append_left_inj ":0").1 h)

theorem mapping_ne_attachments (i : Nat) : "0:t?" ≠ mapping i := by
  intro h
  have hlast := congrArg (fun s : String => s.toList.getLast?) h
  simp [mapping] at hlast

theorem mem_mappings {n : Nat} :
    mapping i ∈ (range n).map (fun j => mapping (j + 1)) ↔ 1 ≤ i ∧ i ≤ n := by
  simp only [mem_map, mem_range, mapping_injective.eq_iff]
  constructor
  · rintro ⟨j, hj, rfl⟩
    omega
  · rintro ⟨hpos, hle⟩
    exact ⟨i - 1, by omega, by omega⟩

theorem pick_settings {name : String} (hname : name ∈ ["-i", "-map"])
    {os : List (String × String)} (hos : ∀ o ∈ os, IsSetting o.1) : pick name os = [] := by
  have hreserved : ∀ n ∈ ["-i", "-map"], n.toList.take 5 ∈ reserved := by decide
  exact pick_eq_nil fun o ho => (hos o ho).ne_of_reserved (hreserved name hname)

theorem pick_allLanguages {name : String} (hname : name ∈ ["-i", "-map"]) :
    pick name (p.allLanguages temp) = [] := by
  have hother : ∀ n ∈ ["-i", "-map"], n.toList.take 5 ≠ "-meta".toList := by decide
  refine pick_eq_nil fun o ho => ?_
  obtain ⟨k, -, hk⟩ := mem_flatMap.1 ho
  obtain ⟨i, hi⟩ := name_of_mem_languageOptions hk
  rintro rfl
  exact hother _ hname (hi ▸ k.take_language i)

theorem pick_command (h : p.command temp = .ok cmd) (hname : name ∈ ["-i", "-map"]) :
    pick name (parse cmd) = pick name ((p.src.path :: p.files temp).map ("-i", ·)) ++
      pick name ((range p.trackCount).map fun i => ("-map", mapping (i + 1))) ++
      pick name (parse (p.extraFlags ++ p.lastWords)) := by
  obtain ⟨front, back, hsettings, hparse⟩ := parse_command h
  obtain ⟨hfront, hback⟩ := forall_mem_append.1 hsettings
  rw [hparse]
  simp only [pick_append, pick_settings hname hfront, pick_settings hname hback,
    pick_allLanguages hname, append_nil]

theorem inputs_command (h : p.command temp = .ok cmd) (hextras : p.options.extras = none) :
    inputs cmd = p.src.path :: p.files temp := by
  have hlast : pick "-i" (parse (p.extraFlags ++ p.lastWords)) = [] := by
    rw [extraFlags, hextras]
    rfl
  have hmaps : pick "-i" ((range p.trackCount).map fun i => ("-map", mapping (i + 1))) = [] :=
    pick_eq_nil (by simp)
  rw [inputs, pick_command h (by decide), pick_map "-i" (fun file => file), hmaps, hlast,
    append_nil, append_nil, map_id']

theorem mappings_command (h : p.command temp = .ok cmd) (hextras : p.options.extras = none) :
    mappings cmd = (range p.trackCount).map (fun i => mapping (i + 1)) ++ ["0:t?"] := by
  have hlast : pick "-map" (parse (p.extraFlags ++ p.lastWords)) = ["0:t?"] := by
    rw [extraFlags, hextras]
    rfl
  have hinputs : pick "-map" ((p.src.path :: p.files temp).map ("-i", ·)) = [] :=
    pick_eq_nil (by simp)
  rw [mappings, pick_command h (by decide), pick_map "-map", hinputs, hlast, nil_append]

/-- Every input behind the source is mapped exactly once, and no input that does not exist is. -/
theorem command_maps_once (h : p.command temp = .ok cmd) (hextras : p.options.extras = none) :
    inputs cmd = p.src.path :: p.files temp ∧
    ∀ i : Nat, (mappings cmd).count (toString i ++ ":0") =
      if 1 ≤ i ∧ i < (inputs cmd).length then 1 else 0 := by
  refine ⟨inputs_command h hextras, fun i => ?_⟩
  have hnodup : ((range p.trackCount).map fun j => mapping (j + 1)).Nodup :=
    nodup_range.map (mapping_injective.comp Nat.succ_injective)
  have hlast : ["0:t?"].count (mapping i) = 0 :=
    count_eq_zero.2 fun hmem => mapping_ne_attachments i (mem_singleton.1 hmem).symm
  change (mappings cmd).count (mapping i) = _
  rw [mappings_command h hextras, count_append, hlast, Nat.add_zero, hnodup.count,
    inputs_command h hextras, length_cons, length_files]
  exact if_congr (mem_mappings.trans (and_congr_right fun _ => Nat.lt_succ_iff.symm)) rfl rfl

def dubbed (keepTracks : Bool) : MuxPlan where
  src :=
    { path := "film.mkv", label := "0", bitrate := .null, duration := .null, description := .null,
      videos := [⟨2, 1, "h264", 30, none, none, 1, "yuv420p", none, none, none, none, .null, .null⟩],
      audios := [⟨"aac", 48000, none, .null, .str "eng"⟩, ⟨"aac", 48000, none, .null, .str "fra"⟩],
      subtitles := [⟨"webvtt", "vtt", .str "eng"⟩] }
  visual := [⟨true, "t/film.mkv"⟩, ⟨false, "t/cover.png"⟩]
  audio := ["t/eng.wav", "t/fra.wav"]
  subs := ["t/eng.vtt"]
  applyQuality := false
  container := .unknown
  out := "film.mov"
  tb := 30
  options := { keepTracks }

theorem command_maps_once_dubbed : ∃ cmd,
    (dubbed false).command "t" = .ok cmd ∧
    inputs cmd = ["film.mkv", "t/film.mkv", "t/new_audio.wav", "t/eng.vtt"] ∧
    (mappings cmd).count "3:0" = 1 ∧ (mappings cmd).count "4:0" = 0 := by
  obtain ⟨cmd, hcmd⟩ : ∃ cmd, (dubbed false).command "t" = .ok cmd := ⟨_, rfl⟩
  obtain ⟨hinputs, hcount⟩ := command_maps_once hcmd rfl
  refine ⟨cmd, hcmd, hinputs.trans (by decide +kernel), (hcount 3).trans ?_, (hcount 4).trans ?_⟩
  · rw [hinputs]
    rfl
  · rw [hinputs]
    rfl

theorem firstInput_bounds {j : Nat} (hj : j < (p.filesOf temp k).length) :
    1 ≤ p.firstInput temp k + j ∧ p.firstInput temp k + j ≤ p.trackCount := by
  have hcount := p.length_files temp
  rw [files, length_append, length_append] at hcount
  cases k <;> simp only [filesOf, firstInput] at hj ⊢ <;> omega

theorem mapped_command (h : p.command temp = .ok cmd) (k : TrackKind) :
    p.mapped temp cmd k = (p.filesOf temp k).length := by
  have hmaps {i : Nat} (hlo : 1 ≤ i) (hhi : i ≤ p.trackCount) : mapping i ∈ mappings cmd := by
    rw [mappings, pick_command h (by decide), pick_map "-map"]
    simp only [mem_append, mem_mappings]
    tauto
  rw [mapped, countP_eq_length.2, length_range]
  intro j hj
  obtain ⟨hlo, hhi⟩ := firstInput_bounds (mem_range.1 hj)
  exact decide_eq_true (hmaps hlo hhi)

def ExtrasApart (p : MuxPlan) : Prop :=
  ∀ w ∈ p.extraFlags, w ≠ "-map" ∧ ∀ (k : TrackKind) i, w ≠ k.language i

theorem language_notMem_extras (hextras : p.ExtrasApart) (k : TrackKind) (i : Nat) :
    k.language i ∉ (parse (p.extraFlags ++ p.lastWords)).map Prod.fst := by
  intro hmem
  have hfront := mem_dropLast_of_parse hmem
  rw [dropLast_append_of_ne_nil (by simp [lastWords])] at hfront
  rcases mem_append.1 hfront with hown | hlast
  · exact (hextras _ hown).2 k i rfl
  · have hlast : k.language i ∈ ["-strict", "-2", "-map", "0:t?"] := hlast
    exact k.language_notMem (by decide) i hlast

theorem mem_names_command (h : p.command temp = .ok cmd) (hextras : p.ExtrasApart) :
    k.language i ∈ (parse cmd).map Prod.fst ↔
      i ≤ (p.filesOf temp k).length ∧ ∃ lang, (p.languages k)[i]? = some lang ∧ ¬ lang.isNull := by
  obtain ⟨front, back, hsettings, hparse⟩ := parse_command h
  obtain ⟨hfront, hback⟩ := forall_mem_append.1 hsettings
  have hother {os : List (String × String)} (hos : ∀ o ∈ os, o.1 ≠ k.language i) :
      (k.language i ∈ os.map Prod.fst) ↔ False := by
    simp only [mem_map, iff_false, not_exists, not_and]
    exact hos
  have hinputs : ∀ o ∈ (p.src.path :: p.files temp).map ("-i", ·), o.1 ≠ k.language i :=
    forall_mem_map.2 fun _ _ => @TrackKind.ne_language "-i" (by decide) k i
  have hmaps : ∀ o ∈ (range p.trackCount).map (fun i => ("-map", mapping (i + 1))),
      o.1 ≠ k.language i :=
    forall_mem_map.2 fun _ _ => @TrackKind.ne_language "-map" (by decide) k i
  have hlanguages : k.language i ∈ (p.allLanguages temp).map Prod.fst ↔
      ∃ l, k.language i ∈
        (languageOptions l (p.filesOf temp l).length (p.languages l)).map Prod.fst := by
    simp only [allLanguages, map_flatMap, mem_flatMap]
    constructor
    · rintro ⟨l, -, hl⟩
      exact ⟨l, hl⟩
    · rintro ⟨l, hl⟩
      exact ⟨l, by cases l <;> simp, hl⟩
  rw [hparse]
  simp only [map_append, mem_append, hother hinputs, hother hmaps,
    hother fun o ho => (hfront o ho).ne_language k i,
    hother fun o ho => (hback o ho).ne_language k i,
    iff_false_intro (language_notMem_extras hextras k i), false_or, or_false, hlanguages,
    mem_languageOptions, exists_eq_left']

/-- Languages are set on tracks of the output only, unless the source has a stream with a language
behind as many of its kind as there are tracks. -/
theorem languages_mapped_iff (h : p.command temp = .ok cmd) (hextras : p.ExtrasApart) :
    (∀ k i, k.language i ∈ (parse cmd).map Prod.fst → i < p.mapped temp cmd k) ↔
      ∀ k lang, (p.languages k)[p.mapped temp cmd k]? = some lang → lang.isNull := by
  simp only [mapped_command h, mem_names_command h hextras]
  constructor
  · intro hall k lang hlang
    by_contra hnull
    exact (hall k _ ⟨le_rfl, lang, hlang, hnull⟩).false
  · rintro hall k i ⟨hle, lang, hlang, hnull⟩
    refine hle.lt_of_ne fun heq => hnull (hall k lang ?_)
    rw [← heq]
    exact hlang

theorem languages_mapped_iff_dubbed : ∃ cmd,
    (dubbed true).command "t" = .ok cmd ∧ (dubbed true).ExtrasApart ∧
    ∀ k i, k.language i ∈ (parse cmd).map Prod.fst → i < (dubbed true).mapped "t" cmd k := by
  obtain ⟨cmd, hcmd⟩ : ∃ cmd, (dubbed true).command "t" = .ok cmd := ⟨_, rfl⟩
  have hextras : (dubbed true).ExtrasApart := fun w hw => by cases hw
  refine ⟨cmd, hcmd, hextras, (languages_mapped_iff hcmd hextras).2 fun k lang hlang => ?_⟩
  rw [mapped_command hcmd] at hlang
  cases k <;> cases hlang

theorem dubbed_language_without_track : ∃ cmd,
    (dubbed false).command "t" = .ok cmd ∧
    TrackKind.audio.language 1 ∈ (parse cmd).map Prod.fst ∧
    (dubbed false).mapped "t" cmd .audio = 1 := by
  obtain ⟨cmd, hcmd⟩ : ∃ cmd, (dubbed false).command "t" = .ok cmd := ⟨_, rfl⟩
  have hextras : (dubbed false).ExtrasApart := fun w hw => by cases hw
  refine ⟨cmd, hcmd, (mem_names_command hcmd hextras).2 ⟨le_rfl, .str "fra", rfl, by decide⟩, ?_⟩
  rw [mapped_command hcmd]
  rfl

end MuxPlan

end Jumpcut
