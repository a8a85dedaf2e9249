import Jumpcut.Proofs.PlaceLaws
import Jumpcut.Proofs.TextLaws
import Jumpcut.Proofs.XmlLaws

namespace Jumpcut

open Outcome List Xml

namespace Premiere

open Xml

@[simp] theorem printable_rateNode (r : FrameRate) : (rateNode r).Printable := by
  have hflag : isText r.flagText := by
    rw [FrameRate.flagText]
    split <;> decide
  simp [rateNode, hflag]
  decide

theorem printable_speedup {percent : String} (h : isText percent) :
    (speedup percent).Printable := by
  have htag : PlainTag "parameter" [("authoringApp", "PremierePro")] :=
    plainTag_of_isText (by decide) (by simp; decide) rfl
  simp [speedup, parameter, htag, h]
  decide +kernel

theorem printable_of_speedNodes {c : Chunk} {xs : List Xml} (h : speedNodes c = .ok xs) :
    PrintableAll xs := by
  rw [speedNodes] at h
  split at h
  · cases h
    trivial
  · simp only [bind_eq_ok, pure_eq_ok] at h
    obtain ⟨y, -, rfl⟩ := h
    simpa using printable_speedup (isText_display y)

def fileId? (clip : Xml) : Option String := (clip.child? "file").bind (·.attr? "id")

def address? (clip : Xml) : Option String :=
  ((clip.child? "file").bind (·.child? "pathurl")).bind text

/-- The first clip that mentions a file gives its address. -/
def FilesDefined (urls : List String) (doc : Xml) : Prop :=
  ∀ id x, (doc.named "clipitem").find? (fileId? · == some id) = some x →
    ∃ k url, id = "file-" ++ toString (k + 1) ∧ urls[k]? = some url ∧ address? x = some url

namespace Facts

structure Textual (f : Facts) : Prop where
  name : isText f.src.fileName
  urls : ∀ u ∈ f.urls, isText u

variable {f : Facts} {id : String} {j track : Nat} {c : Chunk} {p : Place} {x : Xml}
  {make : Nat → Chunk → Place → Except Fault Xml} {xs video sound : List Xml}

@[simp] theorem printable_soundFormat (f : Facts) : f.soundFormat.Printable := by
  simp [soundFormat]
  decide +kernel

@[simp] theorem printable_sizeNodes (f : Facts) : PrintableAll f.sizeNodes := by
  simp [sizeNodes]
  decide

theorem Textual.clipNodes (h : f.Textual) {master : String} (hmaster : isText master) (p : Place) :
    PrintableAll (f.clipNodes master p) := by
  simp [Facts.clipNodes, h.name, hmaster]
  decide

theorem Textual.fileNodes (h : f.Textual) (track : Nat) : PrintableAll (f.fileNodes track) := by
  have hurl : isText (f.urls.getD track "") := by
    rw [getD_eq_getElem?_getD]
    cases hu : f.urls[track]? with
    | none => decide
    | some u => exact h.urls u (mem_of_getElem? hu)
  simp [Facts.fileNodes, h.name, -getD_eq_getElem?_getD, hurl]
  decide

theorem plainTag_file (h : isText id) : PlainTag "file" [("id", id)] :=
  plainTag_of_isText (by decide) (by simpa [h] using (by decide : isPlainName "id")) rfl

theorem Textual.videoFile (h : f.Textual) (first : Bool) : (f.videoFile first).Printable := by
  have htag : PlainTag "file" [("id", "file-1")] := plainTag_file (by decide)
  cases first with
  | false => simp [Facts.videoFile, htag]
  | true =>
    simp [Facts.videoFile, htag, h.fileNodes]
    decide +kernel

theorem Textual.soundFile (h : f.Textual) (track : Nat) (first : Bool) :
    (f.soundFile track first).Printable := by
  have htag : PlainTag "file" [("id", "file-" ++ toString (track + 1))] :=
    plainTag_file (by simpa using (by decide : isText "file-"))
  rw [Facts.soundFile, printable_nodeWith]
  refine ⟨htag, ?_⟩
  split
  · simp [h.fileNodes]
    decide +kernel
  · trivial

theorem printable_link (f : Facts) (j i : Nat) : (f.link j i).Printable := by
  have hmedia : isText (if i = 0 then "video" else "audio") := by
    split <;> decide
  by_cases hi : 0 < i <;> simp [link, hmedia, hi] <;> decide +kernel

theorem printable_clip {as : List (String × String)} {cs : List Xml} (hid : isText id)
    (has : as = [] ∨ as = [("premiereChannelType", "stereo")]) (hcs : PrintableAll cs) :
    (nodeWith "clipitem" (("id", id) :: as) cs).Printable := by
  have hnames : isPlainName "clipitem" ∧ isPlainName "id" ∧ isPlainName "premiereChannelType" ∧
      isText "stereo" := by
    decide +kernel
  refine printable_nodeWith.2 ⟨plainTag_of_isText hnames.1 ?_ ?_, hcs⟩
  · rcases has with rfl | rfl <;> simp [hnames, hid]
  · rcases has with rfl | rfl <;> rfl

theorem isText_clipId (n : Nat) : isText ("clipitem-" ++ toString n) := by
  rw [isText_append, isText_nat]
  decide

theorem Textual.videoClip (h : f.Textual) (hx : f.videoClip j c p = .ok x) : x.Printable := by
  simp only [Facts.videoClip, bind_eq_ok, pure_eq_ok] at hx
  obtain ⟨speed, hspeed, rfl⟩ := hx
  refine printable_clip (isText_clipId _) (.inl rfl) ?_
  have hlinks : PrintableAll ((range (f.tracks + 1)).map (f.link j)) := by
    simp [printableAll_iff, printable_link]
  simp only [printableAll_append, h.clipNodes (by decide : isText "2"), PrintableAll,
    h.videoFile, printable_of_speedNodes hspeed, hlinks, and_true]

theorem Textual.soundClip (h : f.Textual) (hx : f.soundClip track j c p = .ok x) : x.Printable := by
  simp only [Facts.soundClip, bind_eq_ok, pure_eq_ok] at hx
  obtain ⟨speed, hspeed, rfl⟩ := hx
  refine printable_clip (isText_clipId _) (.inr rfl) ?_
  have hmaster : isText (if f.isSound then "1" else "2") := by
    split <;> decide
  have hlast : PrintableAll (if f.isSound then [] else [leaf "outputchannelindex" "1"]) := by
    split
    · trivial
    · simp
      decide
  simp [h.clipNodes hmaster, h.soundFile, printable_of_speedNodes hspeed, hlast]
  decide

theorem printable_of_clips (hmake : ∀ {j c p x}, make j c p = .ok x → x.Printable)
    {total : Number} {cs : List Chunk} (h : clips make total cs = .ok xs) : PrintableAll xs := by
  simp only [clips, bind_eq_ok, mapM_eq_ok] at h
  obtain ⟨ps, -, h⟩ := h
  rw [printableAll_iff]
  intro x hx
  obtain ⟨cpj, -, hcpj⟩ := exists_of_mem_right h hx
  exact hmake hcpj

def videoPart (f : Facts) (tracks : List Xml) : Xml :=
  node "video" (node "format" [node "samplecharacteristics" ([rateNode f.rate,
    leaf "fielddominance" "none", leaf "colordepth" "24"] ++ f.sizeNodes ++
    [leaf "pixelaspectratio" "square"])] :: tracks)

def soundPart (f : Facts) (tracks : List Xml) : Xml :=
  node "audio" ([leaf "numOutputChannels" "2", node "format" [f.soundFormat]] ++ tracks)

def title (f : Facts) : String :=
  "Auto-Editor " ++ (if f.isSound then "Audio" else "Video") ++ " Group"

def frame (f : Facts) (video sound : List Xml) : Xml :=
  nodeWith "xmeml" [("version", "4")] [node "sequence" [leaf "name" f.title,
    leaf "duration" (toString f.duration), rateNode f.rate,
    node "media" [f.videoPart video, f.soundPart sound]]]

variable {cs : List Chunk} {doc : Xml}

theorem document_eq_ok : f.document cs = .ok doc ↔ f.isWritable ∧ ∃ video sound,
    f.videoTracks cs = .ok video ∧
    Forall₂ (fun k x => f.soundTrack cs k = .ok x) (range f.tracks) sound ∧
    f.frame video sound = doc := by
  rw [document]
  cases f.isWritable with
  | false =>
    refine ⟨fun h => ?_, fun h => absurd h.1 Bool.false_ne_true⟩
    cases h
  | true =>
    simp only [Bool.not_true, Bool.false_eq_true, if_false, true_and, bind_eq_ok, mapM_eq_ok,
      pure_eq_ok, exists_and_left]
    rfl

theorem videoTracks_eq_ok : f.videoTracks cs = .ok video ↔
    if f.src.videos.isEmpty then [] = video
    else ∃ xs, clips f.videoClip (.float 0.0) cs = .ok xs ∧ [node "track" xs] = video := by
  rw [videoTracks]
  split <;> simp only [bind_eq_ok, pure_eq_ok]

theorem soundTrack_eq_ok : f.soundTrack cs track = .ok x ↔
    ∃ xs, clips (f.soundClip track) (.int 0) cs = .ok xs ∧
      nodeWith "track" [("currentExplodedTrackIndex", "0"), ("premiereTrackType", "Stereo")] xs =
        x := by
  simp only [soundTrack, bind_eq_ok, pure_eq_ok]

theorem Textual.document (h : f.Textual) (hdoc : f.document cs = .ok doc) : doc.Printable := by
  obtain ⟨-, video, sound, hvideo, hsound, rfl⟩ := document_eq_ok.1 hdoc
  have hvideo : PrintableAll video := by
    rw [videoTracks_eq_ok] at hvideo
    split at hvideo
    · rw [← hvideo]
      trivial
    · obtain ⟨xs, hxs, rfl⟩ := hvideo
      simp [printable_of_clips h.videoClip hxs]
      decide
  have hsound : PrintableAll sound := by
    rw [printableAll_iff]
    intro x hx
    obtain ⟨k, -, hk⟩ := exists_of_mem_right hsound hx
    obtain ⟨xs, hxs, rfl⟩ := soundTrack_eq_ok.1 hk
    refine printable_nodeWith.2 ⟨plainTag_of_isText (by decide) ?_ rfl, ?_⟩
    · simp
      decide +kernel
    · exact printable_of_clips h.soundClip hxs
  have htag : PlainTag "xmeml" [("version", "4")] :=
    plainTag_of_isText (by decide) (by simp; decide) rfl
  have htitle : isText f.title := by
    rw [title]
    split <;> decide
  simp [frame, videoPart, soundPart, htag, htitle, hvideo, hsound]
  decide +kernel

structure Beside (x : Xml) : Prop where
  tag : x.tag ∈ ["filter", "link", "sourcetrack", "labels", "outputchannelindex"]
  noClip : x.named "clipitem" = []

structure IsClip (f : Facts) (file : Xml) (p : Place) (x : Xml) : Prop where
  form : ∃ as master rest, x = nodeWith "clipitem" as (f.clipNodes master p ++ file :: rest) ∧
    ∀ r ∈ rest, Beside r
  alone : x.named "clipitem" = [x]

/-- A track of clips. The first one has the file in its own way. -/
inductive IsTrack (f : Facts) (first later : Xml) : List Place → Xml → Prop
  | clips {as : List (String × String)} {p : Place} {ps : List Place} {x : Xml} {xs : List Xml}
      (head : f.IsClip first p x) (tail : Forall₂ (f.IsClip later) ps xs) :
      IsTrack f first later (p :: ps) (nodeWith "track" as (x :: xs))

theorem forall₂_zipIdx {R : Place → Xml → Prop}
    (hmake : ∀ {j c p x}, make (j + 1) c p = .ok x → R p x) {cps : List (Chunk × Place)} {n : Nat}
    (h : Forall₂ (fun cpj x => make cpj.2 cpj.1.1 cpj.1.2 = .ok x) (cps.zipIdx (n + 1)) xs) :
    Forall₂ R (cps.map (·.2)) xs := by
  induction cps generalizing n xs with
  | nil =>
    cases h
    exact .nil
  | cons cp cps ih =>
    rw [zipIdx_cons, forall₂_cons_left_iff] at h
    obtain ⟨x, xs, hx, hxs, rfl⟩ := h
    exact .cons (hmake hx) (ih hxs)

theorem isTrack_of_clips {file : Bool → Xml}
    (hmake : ∀ {j c p x}, make j c p = .ok x → f.IsClip (file (j == 0)) p x) {total : Number}
    (hcs : cs ≠ []) (h : clips make total cs = .ok xs) :
    ∃ ps, places total cs = .ok ps ∧
      ∀ as, f.IsTrack (file true) (file false) ps (nodeWith "track" as xs) := by
  simp only [clips, bind_eq_ok, mapM_eq_ok] at h
  obtain ⟨ps, hps, h⟩ := h
  refine ⟨ps, hps, ?_⟩
  have hlength := length_places hps
  obtain ⟨c, cs, rfl⟩ := exists_cons_of_ne_nil hcs
  obtain ⟨p, ps, rfl⟩ := exists_cons_of_length_eq_add_one hlength
  rw [zip_cons_cons, zipIdx_cons, forall₂_cons_left_iff] at h
  obtain ⟨x, xs, hx, hxs, rfl⟩ := h
  have htail := forall₂_zipIdx (R := f.IsClip (file false)) hmake hxs
  rw [map_snd_zip (by simpa using hlength.le)] at htail
  exact fun as => .clips (hmake hx) htail

attribute [local simp] node nodeWith leaf named namedAll

theorem beside_of_speedNodes (h : speedNodes c = .ok xs) : ∀ x ∈ xs, Beside x := by
  rw [speedNodes] at h
  split at h
  · cases h
    simp
  · simp only [bind_eq_ok, pure_eq_ok] at h
    obtain ⟨y, -, rfl⟩ := h
    rw [forall_mem_singleton]
    exact ⟨by simp [speedup], by simp [speedup, parameter]⟩

theorem isClip_of {file : Xml} (hfile : file.named "clipitem" = []) {rest : List Xml}
    (hrest : ∀ r ∈ rest, Beside r) (as : List (String × String)) (master : String) (p : Place) :
    f.IsClip file p (nodeWith "clipitem" as (f.clipNodes master p ++ file :: rest)) where
  form := ⟨as, master, rest, rfl, hrest⟩
  alone := by
    have hrest := namedAll_eq_nil fun r hr => (hrest r hr).noClip
    simp [clipNodes, hfile, hrest]

theorem beside_link (f : Facts) (j i : Nat) : Beside (f.link j i) where
  tag := by simp [link]
  noClip := by by_cases hi : 0 < i <;> simp [link, hi]

theorem isClip_videoClip (h : f.videoClip j c p = .ok x) : f.IsClip (f.videoFile (j == 0)) p x := by
  simp only [videoClip, bind_eq_ok, pure_eq_ok, append_assoc, cons_append,
    nil_append] at h
  obtain ⟨speed, hspeed, rfl⟩ := h
  refine isClip_of ?_ ?_ _ _ _
  · cases j == 0 <;> simp [videoFile, fileNodes, rateNode, sizeNodes, soundFormat]
  · rw [forall_mem_append, forall_mem_map]
    exact ⟨beside_of_speedNodes hspeed, fun i _ => beside_link f j i⟩

theorem isClip_soundClip (h : f.soundClip track j c p = .ok x) :
    f.IsClip (f.soundFile track (j == 0)) p x := by
  simp only [soundClip, bind_eq_ok, pure_eq_ok, append_assoc, cons_append,
    nil_append] at h
  obtain ⟨speed, hspeed, rfl⟩ := h
  refine isClip_of ?_ ?_ _ _ _
  · rw [soundFile]
    split <;> simp [fileNodes, rateNode, soundFormat]
  · rw [forall_mem_cons, forall_mem_cons, forall_mem_append]
    refine ⟨⟨by simp, by simp⟩, ⟨by simp, by simp⟩,
      beside_of_speedNodes hspeed, ?_⟩
    split
    · simp
    · rw [forall_mem_singleton]
      exact ⟨by simp, by simp⟩

structure Holds (f : Facts) (cs : List Chunk) (video sound : List Xml) : Prop where
  video : if f.src.videos.isEmpty then video = [] else ∃ ps x, places (.float 0.0) cs = .ok ps ∧
    f.IsTrack (f.videoFile true) (f.videoFile false) ps x ∧ video = [x]
  sound : Forall₂ (fun k x => ∃ ps, places (.int 0) cs = .ok ps ∧
    f.IsTrack (f.soundFile k true) (f.soundFile k false) ps x) (range f.tracks) sound

theorem holds_of_document (hcs : cs ≠ []) (h : f.document cs = .ok doc) :
    ∃ video sound, f.frame video sound = doc ∧ f.Holds cs video sound := by
  obtain ⟨-, video, sound, hvideo, hsound, hdoc⟩ := document_eq_ok.1 h
  refine ⟨video, sound, hdoc, ?_, hsound.imp fun k x hk => ?_⟩
  · rw [videoTracks_eq_ok] at hvideo
    split at hvideo
    · next hempty => rw [if_pos hempty, hvideo]
    · next hempty =>
      obtain ⟨xs, hxs, rfl⟩ := hvideo
      obtain ⟨ps, hps, htrack⟩ := isTrack_of_clips isClip_videoClip hcs hxs
      rw [if_neg hempty]
      exact ⟨ps, _, hps, htrack [], rfl⟩
  · obtain ⟨xs, hxs, rfl⟩ := soundTrack_eq_ok.1 hk
    obtain ⟨ps, hps, htrack⟩ := isTrack_of_clips isClip_soundClip hcs hxs
    exact ⟨ps, hps, htrack _⟩

theorem named_frame (f : Facts) (video sound : List Xml) :
    (f.frame video sound).named "clipitem" =
      namedAll "clipitem" video ++ namedAll "clipitem" sound := by
  simp [frame, videoPart, soundPart, rateNode, sizeNodes, soundFormat]

structure Mentions (file : Xml) (id : String) : Prop where
  tag : file.tag = "file"
  id : file.attr? "id" = some id

theorem mentions_videoFile (f : Facts) (first : Bool) : Mentions (f.videoFile first) "file-1" :=
  ⟨rfl, rfl⟩

theorem mentions_soundFile (f : Facts) (k : Nat) (first : Bool) :
    Mentions (f.soundFile k first) ("file-" ++ toString (k + 1)) :=
  ⟨rfl, rfl⟩

section

variable {file first later x : Xml} {id : String} {p : Place} {ps : List Place}

section

variable (h : f.IsClip file p x) (hfile : Mentions file id)

include h hfile

theorem IsClip.child? : x.child? "file" = some file := by
  obtain ⟨as, master, rest, rfl, -⟩ := h.form
  simp [child?, clipNodes, hfile.tag]

theorem IsClip.fileId? : Premiere.fileId? x = some id := by
  rw [Premiere.fileId?, h.child? hfile, Option.bind_some, hfile.id]

theorem IsClip.address? : Premiere.address? x = (file.child? "pathurl").bind text := by
  rw [Premiere.address?, h.child? hfile, Option.bind_some]

end

theorem IsTrack.named (h : f.IsTrack first later ps x) : x.named "clipitem" = x.children := by
  obtain @⟨as, p, ps, clip, clips, head, tail⟩ := h
  have htail : namedAll "clipitem" clips = clips := namedAll_eq_self fun y hy => by
    obtain ⟨p, -, hy⟩ := exists_of_mem_right tail hy
    exact hy.alone
  simp [head.alone, htail]

theorem IsTrack.find? (h : f.IsTrack first later ps x) (hfirst : Mentions first id)
    (hlater : Mentions later id) :
    ∃ p clip, f.IsClip first p clip ∧ ∀ id',
      (x.named "clipitem").find? (Premiere.fileId? · == some id') =
        if id = id' then some clip else none := by
  have hnamed := h.named
  obtain @⟨as, p, ps, clip, clips, head, tail⟩ := h
  have hclip := head.fileId? hfirst
  have hid : ∀ y ∈ clip :: clips, Premiere.fileId? y = some id := by
    rw [forall_mem_cons]
    refine ⟨hclip, fun y hy => ?_⟩
    obtain ⟨p, -, hy⟩ := exists_of_mem_right tail hy
    exact hy.fileId? hlater
  refine ⟨p, clip, head, fun id' => ?_⟩
  rw [hnamed, nodeWith, children_element]
  split
  · next heq => rw [find?_cons_of_pos (by simp [hclip, heq])]
  · next hne =>
    rw [find?_eq_none]
    intro y hy
    simpa [hid y hy] using hne

end

theorem address_videoFile (f : Facts) :
    ((f.videoFile true).child? "pathurl").bind text = some (f.urls.getD 0 "") := by
  simp [videoFile, child?, fileNodes]

theorem address_soundFile (f : Facts) (k : Nat) :
    ((f.soundFile k true).child? "pathurl").bind text =
      if f.isSound ∨ 0 < k then some (f.urls.getD k "") else none := by
  by_cases h : f.isSound ∨ 0 < k <;> simp [soundFile, child?, fileNodes, h]

theorem find?_sound {ks : List Nat} (h : Forall₂ (fun k x => ∃ ps, places (.int 0) cs = .ok ps ∧
      f.IsTrack (f.soundFile k true) (f.soundFile k false) ps x) ks sound)
    (hx : (namedAll "clipitem" sound).find? (fileId? · == some id) = some x) :
    ∃ k ∈ ks, id = "file-" ++ toString (k + 1) ∧
      address? x = if f.isSound ∨ 0 < k then some (f.urls.getD k "") else none := by
  induction h with
  | nil => cases hx
  | @cons k track ks sound htrack _ ih =>
    obtain ⟨ps, -, htrack⟩ := htrack
    obtain ⟨p, clip, hclip, hfind⟩ :=
      htrack.find? (mentions_soundFile f k true) (mentions_soundFile f k false)
    rw [namedAll, find?_append, hfind] at hx
    split at hx
    · next hid =>
      rw [Option.some_or, Option.some_inj] at hx
      subst hx
      refine ⟨k, .head _, hid.symm, ?_⟩
      rw [hclip.address? (mentions_soundFile f k true), address_soundFile]
    · obtain ⟨k, hk, hfound⟩ := ih hx
      exact ⟨k, .tail _ hk, hfound⟩

/-- There is a track whose first clip gives the address of the first file. -/
def Complete (f : Facts) : Prop := f.src.videos ≠ [] ∨ f.src.audios.length = 1

theorem Holds.filesDefined (h : f.Holds cs video sound) (hurls : f.urls.length = max 1 f.tracks)
    (hf : f.Complete) : FilesDefined f.urls (f.frame video sound) := by
  have hurl : ∀ k, k < max 1 f.tracks → f.urls[k]? = some (f.urls.getD k "") := by
    intro k hk
    rw [← hurls] at hk
    simp [hk]
  have hone : "file-1" = "file-" ++ toString (0 + 1) := rfl
  intro id x hx
  rw [named_frame, find?_append] at hx
  have hvideo := h.video
  split at hvideo
  · next hempty =>
    have hsound : f.isSound := by
      rw [List.isEmpty_iff] at hempty
      have htracks := hf.resolve_left (not_not_intro hempty)
      simp [isSound, hempty, tracks, htracks]
    rw [hvideo, namedAll, find?_nil, Option.none_or] at hx
    obtain ⟨k, hk, hid, haddress⟩ := find?_sound h.sound hx
    rw [if_pos (.inl hsound)] at haddress
    rw [mem_range] at hk
    exact ⟨k, _, hid, hurl k (by omega), haddress⟩
  · obtain ⟨ps, track, -, htrack, rfl⟩ := hvideo
    obtain ⟨p, clip, hclip, hfind⟩ :=
      htrack.find? (mentions_videoFile f true) (mentions_videoFile f false)
    rw [namedAll, namedAll, append_nil, hfind] at hx
    split at hx
    · next hid =>
      rw [Option.some_or, Option.some_inj] at hx
      subst hx
      refine ⟨0, _, hid ▸ hone, hurl 0 (by omega), ?_⟩
      rw [hclip.address? (mentions_videoFile f true), address_videoFile]
    · next hid =>
      obtain ⟨k, hk, hk', haddress⟩ := find?_sound h.sound hx
      have hpos : 0 < k := by
        refine Nat.pos_of_ne_zero fun hzero => hid ?_
        rw [hk', hzero, hone]
      rw [if_pos (.inr hpos)] at haddress
      rw [mem_range] at hk
      exact ⟨k, _, hk', hurl k (by omega), haddress⟩

theorem Holds.not_filesDefined (h : f.Holds cs video sound) (hvideos : f.src.videos = [])
    (htracks : 2 ≤ f.tracks) : ¬ FilesDefined f.urls (f.frame video sound) := by
  intro hdefined
  have hvideo := h.video
  rw [if_pos (by simp [hvideos])] at hvideo
  have hsound := h.sound
  obtain ⟨n, hn⟩ := Nat.exists_eq_add_one.2 (Nat.zero_lt_of_lt htracks)
  rw [hn, range_succ_eq_map, forall₂_cons_left_iff] at hsound
  obtain ⟨track, sound, ⟨ps, -, htrack⟩, -, rfl⟩ := hsound
  obtain ⟨p, clip, hclip, hfind⟩ :=
    htrack.find? (mentions_soundFile f 0 true) (mentions_soundFile f 0 false)
  obtain ⟨k, url, -, -, haddress⟩ := hdefined _ clip (by
    rw [named_frame, hvideo, namedAll, nil_append, namedAll, find?_append, hfind,
      if_pos rfl, Option.some_or])
  have hsound : f.isSound = false := by
    have hne : f.tracks ≠ 1 := by omega
    simp [isSound, hne]
  rw [hclip.address? (mentions_soundFile f 0 true), address_soundFile, if_neg (by simp [hsound])]
    at haddress
  cases haddress

theorem tracks_of_not_complete (hstream : f.src.videos ≠ [] ∨ f.src.audios ≠ [])
    (h : ¬ f.Complete) : f.src.videos = [] ∧ 2 ≤ f.tracks := by
  rw [Complete, not_or, not_not] at h
  have haudios : f.src.audios.length ≠ 0 := by
    simpa using hstream.resolve_left (not_not_intro h.1)
  refine ⟨h.1, ?_⟩
  rw [tracks]
  omega

theorem filesDefined_iff (hcs : cs ≠ []) (hurls : f.urls.length = max 1 f.tracks)
    (hstream : f.src.videos ≠ [] ∨ f.src.audios ≠ []) (h : f.document cs = .ok doc) :
    FilesDefined f.urls doc ↔ f.Complete := by
  obtain ⟨video, sound, rfl, hholds⟩ := holds_of_document hcs h
  refine ⟨fun hdefined => ?_, hholds.filesDefined hurls⟩
  by_contra hf
  obtain ⟨hvideos, htracks⟩ := tracks_of_not_complete hstream hf
  exact hholds.not_filesDefined hvideos htracks hdefined

end Facts

end Premiere

end Jumpcut
