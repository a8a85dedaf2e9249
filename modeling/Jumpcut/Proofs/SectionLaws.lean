import Jumpcut.Wave.Reader
import Jumpcut.Wave.Writer
import Jumpcut.Proofs.OutcomeLaws
import Mathlib.Data.List.Flatten
import Mathlib.Tactic.NormNum

/-!
A wave file is a header and a sequence of sections. Every section is read from its own bytes and the
reader goes on right behind it, so a file says what its sections say one after the other, and sections
of other kinds than format and sound can be left out.
-/
namespace Jumpcut.Wave

open Outcome List

theorem ofLittleBytes_littleBytes {w n : Nat} (h : n < 256 ^ w) :
    ofLittleBytes (littleBytes w n) = n := by
  induction w generalizing n with
  | zero => simp [littleBytes, ofLittleBytes]; omega
  | succ w ih =>
    have hdiv : n / 256 < 256 ^ w := Nat.div_lt_of_lt_mul (by rw [Nat.pow_succ'] at h; exact h)
    rw [littleBytes, ofLittleBytes, ih hdiv, UInt8.toNat_ofNat']
    omega

namespace ByteOrder

@[simp] theorem length_toBytes (o : ByteOrder) (w n : Nat) : (o.toBytes w n).length = w := by
  cases o <;> simp [toBytes, length_littleBytes]

theorem ofBytes_toBytes (o : ByteOrder) {w n : Nat} (h : n < 256 ^ w) :
    o.ofBytes (o.toBytes w n) = n := by
  cases o <;> simp [toBytes, ofBytes, ofLittleBytes_littleBytes h]

end ByteOrder

section Local

variable {o : ByteOrder} {file front : List UInt8} {pos i n w : Nat}

theorem peek_of_front (h : front <+: file.drop pos) (hn : i + n ≤ front.length) :
    peek file (pos + i) n = peek front i n := by
  obtain ⟨rest, hrest⟩ := h
  rw [peek, peek, ← drop_drop, ← hrest, drop_append_of_le_length (by omega),
    take_append_of_le_length (by rw [length_drop]; omega)]

theorem length_peek (hn : i + n ≤ front.length) : (peek front i n).length = n := by
  rw [peek, length_take, length_drop]
  omega

theorem word_of_front (h : front <+: file.drop pos) (hw : i + w ≤ front.length) :
    word o file (pos + i) w = .ok (o.ofBytes (peek front i w)) := by
  simp only [word, peek_of_front h hw, length_peek hw, if_true]

theorem word_of_le (hw : i + w ≤ front.length) :
    word o front i w = .ok (o.ofBytes (peek front i w)) := by
  rw [word, if_pos (length_peek hw)]

theorem reach_of_front (h : front <+: file.drop pos) (hn : i + n ≤ front.length) :
    reach file (pos + i) n = n := by
  have := h.length_le
  rw [length_drop] at this
  rw [reach]
  omega

theorem reach_of_le (hn : i + n ≤ front.length) : reach front i n = n := by
  rw [reach]
  omega

theorem extensionTag_of_front (h : front <+: file.drop pos) (hi : i + 24 ≤ front.length) :
    extensionTag o file (pos + i) = (extensionTag o front i).map fun r => (r.1, 24, 24) := by
  have hword := word_of_front (o := o) h (i := i) (w := 2) (by omega)
  have hword' := @word_of_le o front i 2 (by omega)
  have hpeek := peek_of_front h (i := i + 2) (n := 22) (by omega)
  have hreach := reach_of_front h (i := i + 2) (n := 22) (by omega)
  have hreach' : reach front (i + 2) 22 = 22 := reach_of_le (by omega)
  simp only [← Nat.add_assoc] at hpeek hreach
  simp only [extensionTag, hword, hword', hpeek, hreach, hreach', ok_bind]
  split
  · rfl
  · split
    · cases word o ((peek front (i + 2) 22).drop 6) 0 4 <;> rfl
    · rfl

theorem layoutAt_of_front {size : Nat} (h : front <+: file.drop pos)
    (hlen : front.length = 8 + size) (hsize : o.ofBytes (peek front 4 4) = size)
    (hext : o.ofBytes (peek front 8 2) = extensible → 40 ≤ size) :
    layoutAt o file (pos + 4) =
      (layoutAt o front 4).map fun r => (r.1, 4 + size + pad size) := by
  rw [layoutAt, layoutAt, word_of_front h (by omega), word_of_le (by omega), hsize]
  simp only [ok_bind]
  by_cases hsmall : size < 16
  · simp only [if_pos hsmall]
    rfl
  · have hpeek := peek_of_front h (i := 4 + 4) (n := 16) (by omega)
    have hfields : (peek front (4 + 4) 16).length = 16 := length_peek (by omega)
    have htag : (peek front (4 + 4) 16).take 2 = peek front 8 2 := by
      rw [peek, peek, take_take]
      rfl
    have hrest {got : Nat} (hgot : 16 + got ≤ size) :
        reach file (pos + 4 + 20 + got) (size - (16 + got)) = size - (16 + got) := by
      have := reach_of_front h (i := 4 + 20 + got) (n := size - (16 + got)) (by omega)
      simpa only [← Nat.add_assoc] using this
    rw [← Nat.add_assoc] at hpeek
    rw [hpeek]
    simp only [if_neg hsmall, hfields, Nat.lt_irrefl, if_false, htag]
    by_cases hlong : o.ofBytes (peek front 8 2) = extensible ∧ 18 ≤ size
    · have hroom := hext hlong.1
      have hsame := extensionTag_of_front (o := o) h (i := 4 + 20) (by omega)
      rw [← Nat.add_assoc] at hsame
      rw [if_pos hlong, if_pos hlong, hsame]
      cases extensionTag o front (4 + 20) with
      | error e => rfl
      | ok r =>
        simp only [Except.map, ok_bind]
        rw [hrest (by omega)]
        split
        · rfl
        · simp only [pure, Except.pure, Except.ok.injEq, Prod.mk.injEq, true_and]
          omega
    · rw [if_neg hlong, if_neg hlong, hrest (by omega)]
      split
      · rfl
      · simp only [pure, Except.pure, Except.map, Except.ok.injEq, Prod.mk.injEq, true_and]
        omega

theorem wordsOf_append {xs ys : List UInt8} (h : n * w ≤ xs.length) :
    wordsOf o w n (xs ++ ys) = wordsOf o w n xs := by
  induction n generalizing xs with
  | zero => rfl
  | succ n ih =>
    rw [Nat.succ_mul] at h
    rw [wordsOf, wordsOf, take_append_of_le_length (by omega),
      drop_append_of_le_length (by omega), ih (by rw [length_drop]; omega)]

theorem Layout.sampleFormat_spec {l : Layout} {bytes : Nat} {f : SampleFormat}
    (h : l.sampleFormat o bytes = .ok f) : f.isValid ∧ (f.bytes = 1 ∨ f.bytes = bytes) := by
  unfold Layout.sampleFormat at h
  extract_lets checked at h
  have hchecked : ∀ {g}, checked g = .ok f → f.isValid ∧ f.bytes = g.bytes := by
    intro g hg
    dsimp only [checked] at hg
    split at hg
    · rename_i hvalid
      cases hg
      exact ⟨hvalid, rfl⟩
    · cases hg
  split at h
  · split at h
    · cases h
      exact ⟨rfl, .inl rfl⟩
    · split at h
      · exact (hchecked h).imp_right .inr
      · cases h
  · split at h
    · exact (hchecked h).imp_right .inr
    · cases h

theorem soundAt_of_front {size : Nat} (l : Layout) {known : Option Nat} (h : front <+: file.drop pos)
    (hlen : front.length = 8 + size) (hsize : known.getD (o.ofBytes (peek front 4 4)) = size) :
    soundAt o l known file (pos + 4) =
      (soundAt o l known front 4).map fun r => (r.1, 4 + size + pad size) := by
  rw [soundAt, soundAt, word_of_front h (by omega), word_of_le (by omega)]
  simp only [ok_bind, hsize]
  split
  · rfl
  · split
    · rfl
    · next hbytes =>
      split
      · rfl
      · cases hf : l.sampleFormat o (l.align / l.channels) with
        | error e => rfl
        | ok f =>
          have hfit : size / (l.align / l.channels) * f.bytes ≤ size := by
            rcases (Layout.sampleFormat_spec hf).2 with h1 | h1
            · rw [h1, Nat.mul_one]
              exact Nat.div_le_self _ _
            · rw [h1]
              exact Nat.div_mul_le_self _ _
          have hin : ¬ file.length < pos + 4 + 4 + size / (l.align / l.channels) * f.bytes := by
            have := h.length_le
            rw [length_drop] at this
            omega
          have hwords : wordsOf o f.bytes (size / (l.align / l.channels)) (file.drop (pos + 4 + 4)) =
              wordsOf o f.bytes (size / (l.align / l.channels)) (front.drop (4 + 4)) := by
            obtain ⟨rest, hrest⟩ := h
            rw [Nat.add_assoc, ← drop_drop, ← hrest,
              drop_append_of_le_length (by omega)]
            exact wordsOf_append (by rw [length_drop]; omega)
          simp only [ok_bind, if_neg hin, hwords]
          split
          · rfl
          · rw [if_neg (by omega)]
            cases arrange l.channels f
              (wordsOf o f.bytes (size / (l.align / l.channels)) (front.drop (4 + 4))) <;> rfl

theorem skipAt_of_front {size : Nat} (h : front <+: file.drop pos)
    (hlen : front.length = 8 + size) (hsize : o.ofBytes (peek front 4 4) = size) :
    skipAt o file (pos + 4) = .ok (4 + size + pad size) := by
  have hpeek := peek_of_front h (i := 4) (n := 4) (by omega)
  have hfour : (peek front 4 4).length = 4 := length_peek (by omega)
  have hne : (peek front 4 4).isEmpty = false := by
    rw [isEmpty_eq_false_iff, ← length_pos_iff]
    omega
  rw [skipAt, hpeek, hne, word_of_front h (by omega), hsize]
  rfl

end Local

/-- A section of a file: an id of four bytes, a body, and a filler if the body has odd length. -/
structure Section where
  (id body filler : List UInt8)
  id_length : id.length = 4
  filler_length : filler.length = pad body.length

namespace Section

def core (o : ByteOrder) (s : Section) : List UInt8 := s.id ++ o.toBytes 4 s.body.length ++ s.body

def bytes (o : ByteOrder) (s : Section) : List UInt8 := s.core o ++ s.filler

def isKnown (s : Section) : Bool := s.id = ascii "fmt " || s.id = ascii "data"

structure Whole (o : ByteOrder) (s : Section) : Prop where
  sound : s.id = ascii "data" → s.body ≠ []
  extension : s.id = ascii "fmt " → o.ofBytes (s.body.take 2) = extensible → 40 ≤ s.body.length

def read (o : ByteOrder) (done : Progress) (s : Section) : Except Fault Progress :=
  if s.id = ascii "fmt " then
    (layoutAt o (s.core o) 4).map fun r => { done with layout := some r.1 }
  else if s.id = ascii "data" then
    match done.layout with
    | none => refuse .noFormat
    | some l => (soundAt o l none (s.core o) 4).map fun r => { done with samples := some r.1 }
  else .ok done

variable {o : ByteOrder} {s : Section}

theorem length_core : (s.core o).length = 8 + s.body.length := by
  rw [core, length_append, length_append, s.id_length, o.length_toBytes]

theorem length_bytes : (s.bytes o).length = 8 + s.body.length + pad s.body.length := by
  rw [bytes, length_append, length_core, s.filler_length]

theorem peek_core_id : peek (s.core o) 0 4 = s.id := by
  have := s.id_length
  simp [peek, core, this]

theorem peek_core_size : peek (s.core o) 4 4 = o.toBytes 4 s.body.length := by
  have := s.id_length
  simp [peek, core, this]

theorem ofBytes_core_size (h : s.body.length < 2 ^ 32) :
    o.ofBytes (peek (s.core o) 4 4) = s.body.length := by
  rw [s.peek_core_size, o.ofBytes_toBytes (by norm_num; exact h)]

theorem word_core (h : s.body.length < 2 ^ 32) : word o (s.core o) 4 4 = .ok s.body.length := by
  have hself : s.core o <+: (s.core o).drop 0 := prefix_rfl
  have hword := word_of_front (o := o) hself (i := 4) (w := 4) (by rw [length_core]; omega)
  rwa [Nat.zero_add, ofBytes_core_size h] at hword

theorem peek_core_body (n : Nat) : peek (s.core o) 8 n = s.body.take n := by
  rw [peek, core, drop_left' (by rw [length_append, s.id_length, o.length_toBytes])]

end Section

variable {o : ByteOrder} {file : List UInt8} {pos : Nat} {ss : List Section}

theorem sections_of_front {s : Section} (hs : s.Whole o) (hsize : s.body.length < 2 ^ 32)
    {fileEnd : Nat} (hfile : s.core o <+: file.drop pos) (hend : pos < fileEnd)
    {known : Option Nat} (hknown : s.id = ascii "data" → known = none) (done : Progress) :
    sections o known fileEnd file pos done = s.read o done >>=
      sections o known fileEnd file (pos + (8 + s.body.length + pad s.body.length)) := by
  have hlen := s.length_core (o := o)
  have hword := s.ofBytes_core_size (o := o) hsize
  have hid : peek file pos 4 = s.id := by
    rw [← s.peek_core_id (o := o)]
    exact peek_of_front hfile (i := 0) (by omega)
  have hin : pos < file.length := by
    have := hfile.length_le
    rw [length_drop] at this
    omega
  have hjump : pos + 4 + (4 + s.body.length + pad s.body.length) =
      pos + (8 + s.body.length + pad s.body.length) := by omega
  rw [sections, if_neg (by omega), dif_pos hin]
  simp only [hid, s.id_length, Nat.lt_irrefl, false_and, if_false, Section.read]
  by_cases hfmt : s.id = ascii "fmt "
  · rw [if_pos hfmt, if_pos hfmt, layoutAt_of_front hfile hlen hword]
    · cases layoutAt o (s.core o) 4 with
      | error e => rfl
      | ok r => simp only [Except.map, ok_bind, hjump]
    · rw [s.peek_core_body]
      exact hs.extension hfmt
  · rw [if_neg hfmt, if_neg hfmt]
    by_cases hdata : s.id = ascii "data"
    · obtain rfl := hknown hdata
      rw [if_pos hdata, if_pos hdata]
      cases done.layout with
      | none => rfl
      | some l =>
        have hsound := @soundAt_of_front o file (s.core o) pos s.body.length l none hfile hlen hword
        simp only [hsound]
        cases soundAt o l none (s.core o) 4 with
        | error e => rfl
        | ok r => simp only [Except.map, ok_bind, hjump]
    · rw [if_neg hdata, if_neg hdata, skipAt_of_front hfile hlen hword]
      simp only [ok_bind, hjump]

theorem sections_section {s : Section} (hs : s.Whole o) (hsize : s.body.length < 2 ^ 32)
    {fileEnd : Nat} (hfile : s.core o <+: file.drop pos) (hend : pos < fileEnd) (done : Progress) :
    sections o none fileEnd file pos done = s.read o done >>=
      sections o none fileEnd file (pos + (8 + s.body.length + pad s.body.length)) :=
  sections_of_front hs hsize hfile hend (fun _ => rfl) done

def signature : ByteOrder → List UInt8
  | .little => ascii "RIFF"
  | .big => ascii "RIFX"

theorem length_signature (o : ByteOrder) : (signature o).length = 4 := by
  cases o <;> rfl

def container (o : ByteOrder) (ss : List Section) : List UInt8 :=
  signature o ++ o.toBytes 4 (4 + (ss.flatMap (·.bytes o)).length) ++ ascii "WAVE" ++
    ss.flatMap (·.bytes o)

theorem length_container (o : ByteOrder) (ss : List Section) :
    (container o ss).length = 12 + (ss.flatMap (·.bytes o)).length := by
  rw [container, length_append, length_append, length_append, length_signature,
    o.length_toBytes]
  rfl

theorem sections_flatMap (hss : ∀ s ∈ ss, s.Whole o) {rest : List UInt8}
    (hfile : file.length < 2 ^ 32) (hdrop : file.drop pos = ss.flatMap (·.bytes o) ++ rest)
    (done : Progress) :
    sections o none file.length file pos done = ss.foldlM (Section.read o) done >>=
      sections o none file.length file (pos + (ss.flatMap (·.bytes o)).length) := by
  induction ss generalizing pos done with
  | nil => rfl
  | cons s ss ih =>
    rw [flatMap_cons, append_assoc] at hdrop
    have hlen := congrArg List.length hdrop
    rw [length_drop, length_append, s.length_bytes] at hlen
    have hfront : s.core o <+: file.drop pos := by
      rw [hdrop, Section.bytes, append_assoc]
      exact prefix_append _ _
    have hrest : file.drop (pos + (8 + s.body.length + pad s.body.length)) =
        ss.flatMap (·.bytes o) ++ rest := by
      rw [← drop_drop, hdrop, ← s.length_bytes (o := o), drop_left]
    rw [sections_section (hss s (.head _)) (by omega) hfront (by omega), foldlM_cons,
      bind_assoc]
    congr 1
    funext done'
    rw [ih (fun t ht => hss t (.tail _ ht)) hrest, flatMap_cons, length_append,
      s.length_bytes, Nat.add_assoc pos]

theorem sections_end (h : file.length ≤ pos) : sections o none file.length file pos = pure := by
  funext done
  rw [sections, if_pos h]
  rfl

theorem headerOf_of_front {size : Nat} (hsize : size < 2 ^ 32)
    (h : signature o ++ o.toBytes 4 size ++ ascii "WAVE" <+: file) :
    headerOf file = .ok ⟨none, size + 8, o, 12⟩ := by
  have hfour : (signature o).length = 4 := length_signature o
  have hlen : (signature o ++ o.toBytes 4 size ++ ascii "WAVE").length = 12 := by
    rw [length_append, length_append, hfour, o.length_toBytes]
    rfl
  rw [← drop_zero (l := file)] at h
  have hsignature : peek file 0 4 = signature o := by
    rw [← Nat.zero_add 0, peek_of_front h (by omega)]
    simp [peek, hfour]
  have hword : word o file 4 4 = .ok size := by
    rw [← Nat.zero_add 4, word_of_front h (by omega)]
    simp [peek, hfour, o.ofBytes_toBytes (show size < 256 ^ 4 by omega)]
  have hform : peek file 8 4 = ascii "WAVE" := by
    rw [← Nat.zero_add 8, peek_of_front h (by omega), peek,
      drop_left' (by rw [length_append, hfour, o.length_toBytes])]
    rfl
  have hriff : riffHeader o file = .ok ⟨none, size + 8, o, 12⟩ := by
    rw [riffHeader, hword, hform, ok_bind, if_pos rfl]
    rfl
  rw [headerOf, hsignature]
  cases o with
  | little => exact hriff
  | big => exact hriff

def Progress.sound (done : Progress) : Except Fault Sound :=
  match done.layout, done.samples with
  | some l, some s => .ok ⟨l.rate, s⟩
  | _, _ => .error .unassigned

theorem read_of_front {body : List UInt8} (hsize : file.length < 2 ^ 32)
    (h : file = signature o ++ o.toBytes 4 (4 + body.length) ++ ascii "WAVE" ++ body) :
    file.drop 12 = body ∧
      read file = sections o none file.length file 12 ⟨none, none⟩ >>= Progress.sound := by
  have hfront : (signature o ++ o.toBytes 4 (4 + body.length) ++ ascii "WAVE").length = 12 := by
    rw [length_append, length_append, length_signature, o.length_toBytes]
    rfl
  have hlen : file.length = 12 + body.length := by rw [h, length_append, hfront]
  have hheader : headerOf file = .ok ⟨none, 4 + body.length + 8, o, 12⟩ :=
    headerOf_of_front (by omega) (h ▸ prefix_append _ _)
  have hend : 4 + body.length + 8 = file.length := by omega
  refine ⟨by rw [h, drop_left' hfront], ?_⟩
  rw [read, hheader, ok_bind, hend]
  rfl

theorem read_container (hsize : (container o ss).length < 2 ^ 32) (hss : ∀ s ∈ ss, s.Whole o) :
    read (container o ss) = ss.foldlM (Section.read o) ⟨none, none⟩ >>= Progress.sound := by
  have hlen := length_container o ss
  obtain ⟨hdrop, hread⟩ := read_of_front hsize rfl
  rw [hread, sections_flatMap hss hsize (hdrop.trans (append_nil _).symm),
    sections_end (by omega), bind_pure]

theorem foldlM_filter_isKnown (o : ByteOrder) (ss : List Section) (done : Progress) :
    (ss.filter Section.isKnown).foldlM (Section.read o) done = ss.foldlM (Section.read o) done := by
  induction ss generalizing done with
  | nil => rfl
  | cons s ss ih =>
    by_cases hs : s.isKnown
    · rw [filter_cons_of_pos hs, foldlM_cons, foldlM_cons]
      congr 1
      funext done'
      exact ih done'
    · rw [filter_cons_of_neg hs, foldlM_cons, ih]
      simp only [Section.isKnown, Bool.or_eq_true, decide_eq_true_eq, not_or] at hs
      rw [Section.read, if_neg hs.1, if_neg hs.2, ok_bind]

theorem length_container_filter (o : ByteOrder) (p : Section → Bool) (ss : List Section) :
    (container o (ss.filter p)).length ≤ (container o ss).length := by
  rw [length_container, length_container]
  exact Nat.add_le_add_left (filter_sublist.flatMap _).length_le _

/-- Sections of other kinds have no part in what is read. -/
theorem read_container_filter {o : ByteOrder} {ss : List Section}
    (hsize : (container o ss).length < 2 ^ 32) (hss : ∀ s ∈ ss, s.Whole o) :
    read (container o ss) = read (container o (ss.filter Section.isKnown)) := by
  have hle := length_container_filter o Section.isKnown ss
  rw [read_container hsize hss,
    read_container (by omega) fun s hs => hss s (List.mem_of_mem_filter hs), foldlM_filter_isKnown]

theorem read_container_filter_odd_junk :
    read (container .big [⟨ascii "JUNK", [1, 2, 3], [9], by decide, by decide⟩,
      ⟨ascii "fmt ", [0, 1, 0, 1, 0, 0, 31, 64, 0, 0, 62, 128, 0, 2, 0, 16], [], by decide, by decide⟩,
      ⟨ascii "LIST", [5], [0], by decide, by decide⟩,
      ⟨ascii "data", [0, 1, 255, 254], [], by decide, by decide⟩]) =
    .ok ⟨8000, ⟨.signed, 2, .big⟩, none, [1, 65534]⟩ := by
  rw [read_container_filter (by decide)]
  · decide +kernel
  · simp only [List.forall_mem_cons]
    refine ⟨⟨?_, ?_⟩, ⟨?_, ?_⟩, ⟨?_, ?_⟩, ⟨?_, ?_⟩, by simp⟩ <;> decide

end Jumpcut.Wave
