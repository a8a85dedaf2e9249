import Jumpcut.Proofs.SectionLaws

namespace Jumpcut.Wave

open Outcome List Section Samples SampleFormat ByteOrder

def SampleFormat.stored : List SampleFormat :=
  [⟨.unsigned, 1, .little⟩, ⟨.signed, 2, .little⟩, ⟨.signed, 4, .little⟩, ⟨.signed, 8, .little⟩,
    ⟨.float, 4, .little⟩, ⟨.float, 8, .little⟩]

/-- Sound in one of the stored formats, in a plain row or in full rows of two channels or more. -/
structure Samples.Storable (s : Samples) : Prop where
  nonempty : s.words ≠ []
  format : s.format ∈ stored
  rows : ∀ c ∈ s.channels, 2 ≤ c ∧ c ∣ s.words.length
  words : ∀ w ∈ s.words, w < 256 ^ s.format.bytes

structure Samples.FitsAt (s : Samples) (rate : Nat) : Prop where
  rate_lt : rate < 2 ^ 32
  channels : s.channels.getD 1 < 2 ^ 16
  byteRate : rate * s.format.bytes * s.channels.getD 1 < 2 ^ 32
  align : s.channels.getD 1 * s.format.bytes < 2 ^ 16

def Samples.fileLength (s : Samples) : Nat :=
  (if s.format.kind = .float then 58 else 44) + s.words.length * s.format.bytes

theorem field_eq {w n : Nat} (h : n < 256 ^ w) : field w n = .ok (littleBytes w n) := by
  have : (n : Int) < Int.pow 256 w := by
    change (n : Int) < (256 : Int) ^ w
    exact_mod_cast h
  rw [field, if_pos ⟨by omega, this⟩, Int.toNat_natCast]

theorem field_overflow {w n : Nat} (h : 256 ^ w ≤ n) : field w n = .error .shortRead := by
  have : ¬ (n : Int) < Int.pow 256 w := by
    change ¬ (n : Int) < (256 : Int) ^ w
    exact_mod_cast h.not_gt
  rw [field, if_neg fun hfit => this hfit.2]

def Section.ofBody (id body : List UInt8) (h : id.length = 4) : Section where
  id := id
  body := body
  filler := replicate (pad body.length) 0
  id_length := h
  filler_length := length_replicate

@[simp] theorem Section.id_ofBody (id body : List UInt8) (h : id.length = 4) :
    (ofBody id body h).id = id := rfl

theorem Section.bytes_ofBody {o : ByteOrder} {id body : List UInt8} {h : id.length = 4}
    (heven : body.length % 2 = 0) :
    (ofBody id body h).bytes o = id ++ o.toBytes 4 body.length ++ body := by
  simp [bytes, core, ofBody, pad, heven]

namespace Samples

variable (rate : Nat) (s : Samples)

def tag : Nat := if s.format.kind = .float then ieeeFloat else pcm

def formatBody : List UInt8 :=
  [littleBytes 2 s.tag, littleBytes 2 (s.channels.getD 1), littleBytes 4 rate,
    littleBytes 4 (rate * s.format.bytes * s.channels.getD 1),
    littleBytes 2 (s.channels.getD 1 * s.format.bytes), littleBytes 2 (s.format.bytes * 8)].flatten ++
    if s.format.kind = .float then [0, 0] else []

def frontSections : List Section :=
  ofBody (ascii "fmt ") (s.formatBody rate) (by decide) ::
    if s.format.kind = .float then
      [ofBody (ascii "fact") (littleBytes 4 s.frames) (by decide)]
    else []

def soundSection : Section :=
  ofBody (ascii "data") (s.words.flatMap (littleBytes s.format.bytes)) (by decide)

theorem length_formatBody :
    (s.formatBody rate).length = if s.format.kind = .float then 18 else 16 := by
  simp only [formatBody, length_append, length_flatten, map_cons, map_nil,
    length_littleBytes]
  split <;> rfl

theorem length_soundBody :
    (s.words.flatMap (littleBytes s.format.bytes)).length = s.words.length * s.format.bytes := by
  simp [length_flatMap, length_littleBytes]

theorem frames_le : s.frames ≤ s.words.length := by
  rw [frames]
  split
  · exact le_rfl
  · exact Nat.div_le_self _ _

variable {rate s}

theorem bytes_lt (hs : s.Storable) : s.format.bytes * 8 < 256 ^ 2 := by
  have : ∀ f ∈ stored, f.bytes * 8 < 256 ^ 2 := by decide
  exact this _ hs.format

theorem bytes_ne (hs : s.Storable) : s.format.bytes ≠ 0 ∧ s.format.bytes ∉ [3, 5, 6, 7] := by
  have : ∀ f ∈ stored, f.bytes ≠ 0 ∧ f.bytes ∉ [3, 5, 6, 7] := by decide
  exact this _ hs.format

theorem field_tag (s : Samples) :
    field 2 (if s.format.kind == .float then 3 else 1) = .ok (littleBytes 2 s.tag) := by
  rw [tag]
  split <;> simp_all <;> rfl

theorem formatSection_bind (hfit : s.FitsAt rate) (hdepth : s.format.bytes * 8 < 256 ^ 2) :
    formatSection rate s.format s.frames (s.channels.getD 1) =
      if s.format.kind = .float then do
        return bytesOf "fmt " ++ littleBytes 4 (s.formatBody rate).length ++ s.formatBody rate ++
          bytesOf "fact" ++ littleBytes 4 4 ++ (← field 4 s.frames)
      else .ok (bytesOf "fmt " ++ littleBytes 4 (s.formatBody rate).length ++ s.formatBody rate) := by
  have hchannels := field_eq (w := 2) hfit.channels
  have hrate := field_eq (w := 4) hfit.rate_lt
  have hbyteRate := field_eq (w := 4) hfit.byteRate
  have halign := field_eq (w := 2) hfit.align
  have hdepth := field_eq hdepth
  push_cast at hbyteRate halign hdepth
  simp only [formatSection, s.field_tag, hchannels, hrate, hbyteRate, halign, hdepth, ok_bind]
  by_cases hfloat : s.format.kind = .float
  · simp only [formatBody, hfloat, if_true, beq_self_eq_true]
  · simp only [formatBody, hfloat, if_false, beq_iff_eq]
    rfl

theorem formatSection_eq (hfit : s.FitsAt rate) (hdepth : s.format.bytes * 8 < 256 ^ 2)
    (hframes : s.format.kind = .float → s.frames < 256 ^ 4) :
    formatSection rate s.format s.frames (s.channels.getD 1) =
      .ok ((s.frontSections rate).flatMap (·.bytes .little)) := by
  have hbody := s.length_formatBody rate
  have hlen : (s.formatBody rate).length % 2 = 0 := by
    rw [hbody]
    split <;> rfl
  rw [formatSection_bind hfit hdepth, frontSections, flatMap_cons, bytes_ofBody hlen]
  split
  · next hfloat =>
    rw [field_eq (hframes hfloat), flatMap_singleton,
      bytes_ofBody (by rw [length_littleBytes]), ok_bind, length_littleBytes]
    simp only [append_assoc]
    rfl
  · rw [flatMap_nil, append_nil]
    rfl

theorem core_soundSection (s : Samples) : s.soundSection.core .little =
    ascii "data" ++ littleBytes 4 (s.words.length * s.format.bytes) ++
      s.words.flatMap (littleBytes s.format.bytes) := by
  rw [← length_soundBody]
  rfl

def fileBody (rate : Nat) (s : Samples) : List UInt8 :=
  (s.frontSections rate).flatMap (·.bytes .little) ++ s.soundSection.core .little

theorem length_frontSections (rate : Nat) (s : Samples) :
    ((s.frontSections rate).flatMap (·.bytes .little)).length =
      if s.format.kind = .float then 38 else 24 := by
  have hbody := s.length_formatBody rate
  rw [frontSections, flatMap_cons, length_append, length_bytes]
  change 8 + (s.formatBody rate).length + pad (s.formatBody rate).length + _ = _
  rw [hbody]
  split
  · rw [flatMap_singleton, length_bytes]
    change _ + (8 + (littleBytes 4 s.frames).length + pad (littleBytes 4 s.frames).length) = _
    rw [length_littleBytes]
    rfl
  · rfl

theorem length_fileBody (rate : Nat) (s : Samples) :
    (s.fileBody rate).length = ((s.frontSections rate).flatMap (·.bytes .little)).length + 8 +
      s.words.length * s.format.bytes := by
  rw [fileBody, length_append, core_soundSection, length_append, length_append,
    length_littleBytes, length_soundBody, ← Nat.add_assoc]
  rfl

theorem fileLength_eq (rate : Nat) (s : Samples) :
    s.fileLength = 12 + (s.fileBody rate).length := by
  rw [length_fileBody, length_frontSections, fileLength]
  split <;> omega

def file (rate : Nat) (s : Samples) : List UInt8 :=
  signature .little ++ toBytes .little 4 (4 + (s.fileBody rate).length) ++ ascii "WAVE" ++
    s.fileBody rate

theorem write_outcome (hfit : s.FitsAt rate) (hdepth : s.format.bytes * 8 < 256 ^ 2)
    (hframes : s.format.kind = .float → s.frames < 256 ^ 4) :
    write rate s = if 2 ^ 32 + 20 ≤ s.fileLength then .error (.wave .tooLarge)
      else if 2 ^ 32 + 8 ≤ s.fileLength then .error .shortRead else .ok (s.file rate) := by
  have hlen := fileLength_eq rate s
  have hbody := length_fileBody rate s
  have htotal : 12 + ((s.frontSections rate).flatMap (·.bytes .little)).length +
      s.words.length * s.format.bytes = 4 + (s.fileBody rate).length := by omega
  rw [write, preamble, formatSection_eq hfit hdepth hframes]
  simp only [ok_bind]
  by_cases hlarge : 2 ^ 32 + 20 ≤ s.fileLength
  · rw [if_pos (by omega), if_pos hlarge]
    rfl
  rw [if_neg (by omega), if_neg hlarge, htotal]
  by_cases hroom : 2 ^ 32 + 8 ≤ s.fileLength
  · rw [if_pos hroom, field_overflow (by omega)]
    rfl
  · rw [if_neg hroom, field_eq (by omega), ok_bind, file, fileBody, core_soundSection]
    simp only [pure_bind, append_assoc]
    rfl

theorem write_overflow (hfit : s.FitsAt rate) (hdepth : s.format.bytes * 8 < 256 ^ 2)
    (hfloat : s.format.kind = .float) (hframes : 256 ^ 4 ≤ s.frames) :
    write rate s = .error .shortRead := by
  rw [write, preamble, formatSection_bind hfit hdepth, if_pos hfloat, field_overflow hframes]
  rfl

theorem write_eq (hs : s.Storable) (hfit : s.FitsAt rate) (hsize : s.fileLength < 2 ^ 32) :
    write rate s = .ok (signature .little ++
      toBytes .little 4 (4 + (s.fileBody rate).length) ++ ascii "WAVE" ++
      s.fileBody rate) := by
  have hframes : s.frames < 256 ^ 4 := by
    have := Nat.le_mul_of_pos_right s.words.length (Nat.pos_of_ne_zero (bytes_ne hs).1)
    have := s.frames_le
    rw [fileLength] at hsize
    omega
  rw [write_outcome hfit (bytes_lt hs) fun _ => hframes, if_neg (by omega), if_neg (by omega)]
  rfl

theorem wordsOf_flatMap {o : ByteOrder} {w : Nat} {words : List Nat} (h : ∀ x ∈ words, x < 256 ^ w) :
    wordsOf o w words.length (words.flatMap (o.toBytes w)) = words := by
  induction words with
  | nil => rfl
  | cons x xs ih =>
    have hx : x < 256 ^ w := h x (.head _)
    rw [length_cons, wordsOf, flatMap_cons, take_left' (o.length_toBytes w x),
      drop_left' (o.length_toBytes w x), o.ofBytes_toBytes hx, ih fun y hy => h y (.tail _ hy)]

def layout (rate : Nat) (s : Samples) : Layout :=
  ⟨s.tag, s.channels.getD 1, rate, s.channels.getD 1 * s.format.bytes, s.format.bytes * 8⟩

theorem sampleFormat_layout (hs : s.Storable) :
    (s.layout rate).sampleFormat .little s.format.bytes = .ok s.format := by
  obtain ⟨f, channels, words⟩ := s
  have hf : f ∈ stored := hs.format
  simp only [stored, mem_cons, not_mem_nil, or_false] at hf
  rcases hf with rfl | rfl | rfl | rfl | rfl | rfl <;> rfl

theorem tag_cases (s : Samples) : s.tag = pcm ∨ s.tag = ieeeFloat := by
  rw [tag]
  split
  · exact .inr rfl
  · exact .inl rfl

section

variable (hs : s.Storable)

include hs

theorem layout_fields (hfit : s.FitsAt rate) {fields : List UInt8}
    (h : fields = (s.formatBody rate).take 16) :
    (⟨ofLittleBytes (fields.take 2), ofLittleBytes (peek fields 2 2), ofLittleBytes (peek fields 4 4),
      ofLittleBytes (peek fields 12 2), ofLittleBytes (peek fields 14 2)⟩ : Layout) =
      s.layout rate := by
  have hfields : fields =
      littleBytes 2 s.tag ++ littleBytes 2 (s.channels.getD 1) ++ littleBytes 4 rate ++
        littleBytes 4 (rate * s.format.bytes * s.channels.getD 1) ++
        littleBytes 2 (s.channels.getD 1 * s.format.bytes) ++ littleBytes 2 (s.format.bytes * 8) := by
    rw [h, formatBody, take_left']
    · simp
    · simp [length_littleBytes]
  have htag : s.tag < 256 ^ 2 := by
    rcases s.tag_cases with h | h <;> rw [h] <;> decide
  simp [hfields, peek, drop_append, length_littleBytes, drop_of_length_le,
    take_of_length_le, layout, ofLittleBytes_littleBytes htag,
    ofLittleBytes_littleBytes (w := 2) hfit.channels,
    ofLittleBytes_littleBytes (w := 4) hfit.rate_lt, ofLittleBytes_littleBytes (w := 2) hfit.align,
    ofLittleBytes_littleBytes (bytes_lt hs)]

theorem read_formatSection (hfit : s.FitsAt rate) (done : Progress) :
    (ofBody (ascii "fmt ") (s.formatBody rate) (by decide)).read .little done =
      .ok { done with layout := some (s.layout rate) } := by
  generalize hsec : ofBody (ascii "fmt ") (s.formatBody rate) (by decide) = sec
  have hbody : sec.body = s.formatBody rate := by rw [← hsec, ofBody]
  have hlen : 16 ≤ sec.body.length ∧ sec.body.length ≤ 18 := by
    rw [hbody, length_formatBody]
    split <;> omega
  have hcore := sec.length_core (o := .little)
  have hid : sec.id = ascii "fmt " := by rw [← hsec, id_ofBody]
  have hfields : (peek (sec.core .little) (4 + 4) 16).length = 16 := length_peek (by omega)
  have hlayout := layout_fields hs hfit
    ((sec.peek_core_body (o := .little) 16).trans (by rw [hbody]))
  have htag : ofLittleBytes ((peek (sec.core .little) (4 + 4) 16).take 2) = s.tag :=
    congrArg Layout.tag hlayout
  have hplain : ¬ (s.tag = extensible ∧ 18 ≤ sec.body.length) := by
    rcases s.tag_cases with h | h <;> simp [h, pcm, ieeeFloat, extensible]
  have hknown : ¬ (s.tag ≠ pcm ∧ s.tag ≠ ieeeFloat) := by
    rcases s.tag_cases with h | h <;> rw [h] <;> decide
  rw [Section.read, if_pos hid, layoutAt, sec.word_core (by omega)]
  simp only [ok_bind, hfields, Nat.lt_irrefl, if_false, ofBytes, htag,
    if_neg (show ¬ sec.body.length < 16 by omega)]
  rw [if_neg hplain, if_neg hknown, ← hlayout, htag]
  rfl

theorem arrange_words : arrange (s.channels.getD 1) s.format s.words = .ok s := by
  obtain ⟨f, channels, words⟩ := s
  cases channels with
  | none => rfl
  | some c =>
    obtain ⟨htwo, hrows⟩ := hs.rows c rfl
    have hmod : words.length % c = 0 := Nat.mod_eq_zero_of_dvd hrows
    change arrange c f words = _
    rw [arrange, if_neg (by omega), if_pos hmod]

theorem read_soundSection (hsize : s.fileLength < 2 ^ 32) {done : Progress}
    (hdone : done.layout = some (s.layout rate)) :
    s.soundSection.read .little done = .ok { done with samples := some s } := by
  have hchannels : 0 < s.channels.getD 1 := by
    cases hc : s.channels with
    | none => exact Nat.one_pos
    | some c =>
      have := (hs.rows c hc).1
      change 0 < c
      omega
  have hbytes := bytes_ne hs
  have hlen : s.soundSection.body.length = s.words.length * s.format.bytes := s.length_soundBody
  have hcore := s.soundSection.length_core (o := .little)
  have hsmall : s.soundSection.body.length < 2 ^ 32 := by
    rw [fileLength] at hsize
    omega
  have hdiv : (s.layout rate).align / (s.layout rate).channels = s.format.bytes :=
    Nat.mul_div_cancel_left _ hchannels
  have hcount : s.soundSection.body.length / s.format.bytes = s.words.length := by
    rw [hlen, Nat.mul_div_cancel _ (Nat.pos_of_ne_zero hbytes.1)]
  have hwords : wordsOf .little s.format.bytes s.words.length
      ((s.soundSection.core .little).drop (4 + 4)) = s.words := by
    rw [core_soundSection, drop_left' (by simp [length_littleBytes]; rfl)]
    exact wordsOf_flatMap hs.words
  rw [Section.read, if_neg (by rw [soundSection, id_ofBody]; decide), if_pos (by rfl), hdone]
  simp only [soundAt, s.soundSection.word_core hsmall, ok_bind, Option.getD_none, hdiv,
    if_neg hbytes.1, if_neg hbytes.2, sampleFormat_layout hs, hcount, hwords]
  rw [if_neg (show (s.layout rate).channels ≠ 0 from hchannels.ne'),
    if_neg (by rw [← hlen]; change ¬ 2 ^ 63 ≤ _; omega), if_neg (by omega),
    show (s.layout rate).channels = s.channels.getD 1 from rfl, arrange_words hs]
  rfl

theorem whole_formatSection (hfit : s.FitsAt rate) :
    (ofBody (ascii "fmt ") (s.formatBody rate) (by decide)).Whole .little := by
  have hfirst : ofLittleBytes (((s.formatBody rate).take 16).take 2) = s.tag :=
    congrArg Layout.tag (layout_fields hs hfit rfl)
  rw [take_take, Nat.min_eq_left (by decide)] at hfirst
  refine ⟨fun h => absurd h (by rw [id_ofBody]; decide), fun _ h => ?_⟩
  have htag : s.tag = extensible := hfirst.symm.trans h
  rcases s.tag_cases with h | h <;> simp [h, pcm, ieeeFloat, extensible] at htag

theorem whole_soundSection : s.soundSection.Whole .little := by
  refine ⟨fun _ => ?_, fun h => absurd h (by rw [soundSection, id_ofBody]; decide)⟩
  have hwords := length_pos_iff.2 hs.nonempty
  have hlen : s.soundSection.body.length = s.words.length * s.format.bytes := s.length_soundBody
  rw [← length_pos_iff, hlen]
  exact Nat.mul_pos hwords (Nat.pos_of_ne_zero (bytes_ne hs).1)

theorem read_frontSections (hfit : s.FitsAt rate) :
    (∀ sec ∈ s.frontSections rate, sec.Whole .little) ∧
      (s.frontSections rate).foldlM (Section.read .little) ⟨none, none⟩ =
        .ok ⟨some (s.layout rate), none⟩ := by
  have hfmt := whole_formatSection hs hfit
  have hread := read_formatSection hs hfit ⟨none, none⟩
  rw [frontSections]
  split
  · constructor
    · simp only [forall_mem_cons, not_mem_nil, false_imp_iff, implies_true, and_true]
      exact ⟨hfmt, fun h => absurd h (by rw [id_ofBody]; decide),
        fun h => absurd h (by rw [id_ofBody]; decide)⟩
    · rw [foldlM_cons, hread]
      rfl
  · constructor
    · simpa using hfmt
    · rw [foldlM_cons, hread]
      rfl

end

end Samples

theorem read_write {rate : Nat} {s : Samples} (hs : s.Storable) (hfit : s.FitsAt rate)
    (hsize : s.fileLength < 2 ^ 32) :
    ∃ file, write rate s = .ok file ∧ file.length = s.fileLength ∧ read file = .ok ⟨rate, s⟩ := by
  have hbody := fileLength_eq rate s
  obtain ⟨hwhole, hfront⟩ := read_frontSections hs hfit
  refine ⟨_, write_eq hs hfit hsize, ?_⟩
  generalize hfile : signature .little ++ _ ++ _ ++ s.fileBody rate = file
  have hlen : file.length = s.fileLength := by
    rw [← hfile, length_append, length_append, length_append, length_signature,
      length_toBytes, hbody]
    rfl
  refine ⟨hlen, ?_⟩
  rw [← hlen] at hsize
  obtain ⟨hdrop, hread⟩ := read_of_front hsize hfile.symm
  have hpos := congrArg length hdrop
  have hsound : file.drop (12 + ((s.frontSections rate).flatMap (·.bytes .little)).length) =
      s.soundSection.core .little := by
    rw [← drop_drop, hdrop, fileBody, drop_left]
  have hend := congrArg length hsound
  rw [length_drop, length_core] at hend
  -- The filler of the last section is missing; the reader looks for no more once it is past the end.
  rw [hread, sections_flatMap hwhole hsize hdrop, hfront, ok_bind,
    sections_section (whole_soundSection hs) (by omega) (hsound ▸ prefix_rfl) (by omega),
    read_soundSection hs (by omega) rfl, ok_bind, sections_end (by omega)]
  rfl

theorem read_write_odd_bytes :
    ∃ file, write 8000 ⟨⟨.unsigned, 1, .little⟩, some 3, [0, 128, 255]⟩ = .ok file ∧ file.length = 47 ∧
      read file = .ok ⟨8000, ⟨.unsigned, 1, .little⟩, some 3, [0, 128, 255]⟩ :=
  read_write ⟨by decide, by decide, by simp, by simp⟩ ⟨by decide, by decide, by decide, by decide⟩
    (by decide)

/-! ### The size of a file -/

def StatesSize (file : List UInt8) : Prop := ofLittleBytes (peek file 4 4) + 8 = file.length

theorem Samples.statesSize_file {rate : Nat} {s : Samples} (h : s.fileLength < 2 ^ 32 + 8) :
    StatesSize (s.file rate) ∧ (s.file rate).length = s.fileLength := by
  have hlen := fileLength_eq rate s
  have hfile : (s.file rate).length = s.fileLength := by
    rw [file, length_append, length_append, length_append, length_signature,
      length_toBytes, hlen]
    rfl
  refine ⟨?_, hfile⟩
  have hpeek : peek (s.file rate) 4 4 = littleBytes 4 (4 + (s.fileBody rate).length) := by
    rw [peek, file, append_assoc, append_assoc,
      drop_left' (length_signature .little), take_left' (length_toBytes ..)]
    rfl
  rw [StatesSize, hfile, hpeek, ofLittleBytes_littleBytes (by omega)]
  omega

/-- Sound is refused as too long, or its file states its size: but for sound whose file would be
at most twelve bytes beyond the limit, and for moments of floating-point samples that are too many
to be counted. These end in a field that overflows. -/
theorem write_states_size_iff {rate : Nat} {s : Samples} (hfit : s.FitsAt rate)
    (hdepth : s.format.bytes * 8 < 2 ^ 16) :
    ((write rate s = .error (.wave .tooLarge) ∨
        ∃ file, write rate s = .ok file ∧ StatesSize file) ↔
      (s.format.kind = .float → s.frames < 2 ^ 32) ∧
        (s.fileLength < 2 ^ 32 + 8 ∨ 2 ^ 32 + 20 ≤ s.fileLength)) ∧
    (write rate s = .error .shortRead ∨ write rate s = .error (.wave .tooLarge) ∨
      ∃ file, write rate s = .ok file ∧ file.length = s.fileLength) := by
  by_cases hframes : s.format.kind = .float → s.frames < 2 ^ 32
  · rw [write_outcome hfit hdepth hframes, and_iff_right hframes]
    split
    · next hlarge => exact ⟨iff_of_true (.inl rfl) (.inr hlarge), .inr (.inl rfl)⟩
    · next hlarge =>
      split
      · next hroom => exact ⟨iff_of_false (by simp) (by omega), .inl rfl⟩
      · next hroom =>
        have hsmall := Nat.lt_of_not_le hroom
        obtain ⟨hsize, hlen⟩ := statesSize_file hsmall
        exact ⟨iff_of_true (.inr ⟨_, rfl, hsize⟩) (.inl hsmall), .inr (.inr ⟨_, rfl, hlen⟩)⟩
  · have hmany := hframes
    rw [Classical.not_imp, not_lt] at hmany
    rw [write_overflow hfit hdepth hmany.1 hmany.2]
    exact ⟨iff_of_false (by simp) fun h => hframes h.1, .inl rfl⟩

def silence (format : SampleFormat) (n : Nat) : Samples := ⟨format, none, replicate n 0⟩

theorem length_words_silence (format : SampleFormat) (n : Nat) :
    (silence format n).words.length = n :=
  length_replicate

theorem fitsAt_silence {format : SampleFormat} {rate : Nat} (n : Nat) (hrate : rate < 2 ^ 32)
    (hbytes : rate * format.bytes * 1 < 2 ^ 32) (halign : 1 * format.bytes < 2 ^ 16) :
    (silence format n).FitsAt rate :=
  ⟨hrate, show 1 < 2 ^ 16 by decide, hbytes, halign⟩

def byteFormat : SampleFormat := ⟨.unsigned, 1, .little⟩

theorem fileLength_bytes (n : Nat) : (silence byteFormat n).fileLength = 44 + n := by
  rw [fileLength, length_words_silence]
  exact congrArg (44 + ·) (Nat.mul_one n)

theorem kind_bytes (n : Nat) : (silence byteFormat n).format.kind ≠ .float := by
  simp [silence, byteFormat]

theorem fitsAt_bytes (n : Nat) : (silence byteFormat n).FitsAt 8000 :=
  fitsAt_silence n (by decide) (by decide) (by decide)

theorem write_states_size_longest :
    write 8000 (silence byteFormat 4294967259) = .error (.wave .tooLarge) ∨
      ∃ file, write 8000 (silence byteFormat 4294967259) = .ok file ∧ StatesSize file :=
  (write_states_size_iff (fitsAt_bytes _) (show 1 * 8 < 2 ^ 16 by decide)).1.2
    ⟨fun h => absurd h (kind_bytes _), .inl (by rw [fileLength_bytes]; decide)⟩

theorem write_silence_overflow :
    write 8000 (silence byteFormat 4294967260) = .error .shortRead ∧
      write 48000 (silence ⟨.float, 2, .little⟩ 4294967296) = .error .shortRead := by
  constructor
  · have hout := write_outcome (fitsAt_bytes 4294967260) (show 1 * 8 < 2 ^ 16 by decide)
      fun h => absurd h (kind_bytes _)
    rwa [fileLength_bytes, if_neg (by decide), if_pos (by decide)] at hout
  · refine write_overflow (fitsAt_silence _ (by decide) (by decide) (by decide))
      (show 2 * 8 < 2 ^ 16 by decide) rfl ?_
    rw [frames]
    exact (length_words_silence _ _).ge

end Jumpcut.Wave
