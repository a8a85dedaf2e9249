import Jumpcut.Proofs.ReadingLaws
import Mathlib.Tactic.Ring

namespace Jumpcut.Wave

open Outcome List ByteOrder

theorem ofLittleBytes_append (xs ys : List UInt8) :
    ofLittleBytes (xs ++ ys) = ofLittleBytes xs + 256 ^ xs.length * ofLittleBytes ys := by
  induction xs with
  | nil => simp [ofLittleBytes]
  | cons x xs ih =>
    rw [cons_append, ofLittleBytes, ofLittleBytes, ih, length_cons]
    ring

theorem littleBytes_add (v w n : Nat) :
    littleBytes (v + w) n = littleBytes v n ++ littleBytes w (n / 256 ^ v) := by
  induction v generalizing n with
  | zero => simp [littleBytes]
  | succ v ih =>
    rw [Nat.succ_add, littleBytes, littleBytes, ih, cons_append, Nat.div_div_eq_div_mul,
      Nat.pow_succ']

theorem ofBytes_big_cons (x : UInt8) (xs : List UInt8) :
    big.ofBytes (x :: xs) = big.ofBytes xs + 256 ^ xs.length * x.toNat := by
  simp [ofBytes, ofLittleBytes_append, ofLittleBytes]

theorem add_mul_lt {m a x y : Nat} (ha : a < m) (h : x < y) (b : Nat) : a + m * x < b + m * y := by
  have hstep := Nat.mul_le_mul_left m (Nat.succ_le_of_lt h)
  rw [Nat.mul_succ] at hstep
  omega

theorem after_iff {xs ys : List UInt8} (h : xs.length = ys.length) :
    after xs ys ↔ big.ofBytes ys < big.ofBytes xs := by
  induction xs generalizing ys with
  | nil =>
    obtain rfl := length_eq_zero_iff.1 h.symm
    simp [after]
  | cons x xs ih =>
    cases ys with
    | nil => cases h
    | cons y ys =>
      have hlen : xs.length = ys.length := Nat.succ.inj h
      rw [after, ofBytes_big_cons, ofBytes_big_cons, hlen]
      by_cases hxy : x = y
      · rw [if_pos hxy, ih hlen, hxy]
        omega
      · have hx := big.ofBytes_lt xs
        have hy := big.ofBytes_lt ys
        rw [hlen] at hx
        rw [if_neg hxy, decide_eq_true_iff, UInt8.lt_iff_toNat_lt]
        constructor
        · intro hlt
          exact add_mul_lt hy hlt _
        · intro hlt
          by_contra hle
          have hne : x.toNat ≠ y.toNat := fun heq => hxy (UInt8.toNat_inj.1 heq)
          have hflip := add_mul_lt hx (by omega : x.toNat < y.toNat) (big.ofBytes ys)
          omega

section Peek

variable {o : ByteOrder} {xs ys : List UInt8} {k n : Nat}

theorem peek_left (hn : xs.length = n) : peek (xs ++ ys) 0 n = xs := by
  rw [peek, drop_zero, take_left' hn]

theorem peek_right (i : Nat) (hk : xs.length = k) : peek (xs ++ ys) (k + i) n = peek ys i n := by
  rw [peek, peek, ← drop_drop, drop_left' hk]

theorem word_of_peek {file : List UInt8} {pos : Nat} (h : peek file pos n = xs)
    (hn : xs.length = n) : word o file pos n = .ok (o.ofBytes xs) := by
  rw [word, h, if_pos hn]

end Peek

def swapped (n : Nat) : Nat := big.ofBytes (littleBytes 4 n)

theorem swapped_zero : swapped 0 = 0 := rfl

/-- A large file: the sizes that its first section gives, the rest of that section, and what comes
after it. -/
structure Large where
  (fileSize dataSize : Nat)
  (extra body : List UInt8)
  fileSize_lt : fileSize < 2 ^ 64
  dataSize_lt : dataSize < 2 ^ 64
  extra_length : 12 ≤ extra.length
  size_lt : 16 + extra.length < 2 ^ 32

namespace Large

variable (f : Large)

def size : Nat := 16 + f.extra.length

def heading : List UInt8 := [0xff, 0xff, 0xff, 0xff] ++ ascii "WAVEds64"

def front : List UInt8 :=
  ascii "RF64" ++ heading ++ littleBytes 4 f.size ++ littleBytes 8 f.fileSize ++
    littleBytes 8 f.dataSize

def bytes : List UInt8 := f.front ++ f.extra ++ f.body

theorem length_front : f.front.length = 36 := by
  simp only [front, length_append, length_littleBytes]
  rfl

theorem length_bytes : f.bytes.length = 20 + f.size + f.body.length := by
  rw [bytes, length_append, length_append, length_front, size]
  omega

theorem bytes_eq : f.bytes = ascii "RF64" ++ (heading ++ (littleBytes 4 f.size ++
    (littleBytes 4 f.fileSize ++ (littleBytes 4 (f.fileSize / 2 ^ 32) ++
      (littleBytes 8 f.dataSize ++ (f.extra ++ f.body)))))) := by
  have hhalves : littleBytes 8 f.fileSize =
      littleBytes 4 f.fileSize ++ littleBytes 4 (f.fileSize / 2 ^ 32) := littleBytes_add 4 4 _
  simp only [bytes, front, hhalves, append_assoc]

theorem peek_first (i n : Nat) : peek f.bytes (4 + (12 + i)) n = peek (littleBytes 4 f.size ++
    (littleBytes 4 f.fileSize ++ (littleBytes 4 (f.fileSize / 2 ^ 32) ++
      (littleBytes 8 f.dataSize ++ (f.extra ++ f.body))))) i n := by
  have hfour : (ascii "RF64").length = 4 := rfl
  have htwelve : heading.length = 12 := rfl
  rw [bytes_eq, peek_right _ hfour, peek_right _ htwelve]

theorem peek_size : peek f.bytes 16 4 = littleBytes 4 f.size :=
  (f.peek_first 0 4).trans (peek_left (length_littleBytes ..))

theorem peek_low : peek f.bytes 20 4 = littleBytes 4 f.fileSize := by
  refine (f.peek_first (4 + 0) 4).trans ?_
  rw [peek_right _ (length_littleBytes ..), peek_left (length_littleBytes ..)]

theorem peek_high : peek f.bytes 24 4 = littleBytes 4 (f.fileSize / 2 ^ 32) := by
  refine (f.peek_first (4 + (4 + 0)) 4).trans ?_
  rw [peek_right _ (length_littleBytes ..), peek_right _ (length_littleBytes ..),
    peek_left (length_littleBytes ..)]

theorem word_fileSize : word .little f.bytes 20 8 = .ok f.fileSize := by
  have hhalves : littleBytes 8 f.fileSize =
      littleBytes 4 f.fileSize ++ littleBytes 4 (f.fileSize / 2 ^ 32) := littleBytes_add 4 4 _
  have hpeek : peek f.bytes 20 8 = littleBytes 8 f.fileSize := by
    refine (f.peek_first (4 + 0) 8).trans ?_
    rw [peek_right _ (length_littleBytes ..), ← append_assoc, ← hhalves,
      peek_left (length_littleBytes ..)]
  rw [word_of_peek hpeek (length_littleBytes ..)]
  exact congrArg _ (ofLittleBytes_littleBytes f.fileSize_lt)

theorem word_dataSize : word .little f.bytes 28 8 = .ok f.dataSize := by
  have hpeek : peek f.bytes 28 8 = littleBytes 8 f.dataSize := by
    refine (f.peek_first (4 + (4 + (4 + 0))) 8).trans ?_
    rw [peek_right _ (length_littleBytes ..), peek_right _ (length_littleBytes ..),
      peek_right _ (length_littleBytes ..), peek_left (length_littleBytes ..)]
  rw [word_of_peek hpeek (length_littleBytes ..)]
  exact congrArg _ (ofLittleBytes_littleBytes f.dataSize_lt)

def order : ByteOrder :=
  if after (littleBytes 4 (f.fileSize / 2 ^ 32)) (littleBytes 4 f.fileSize) then .big else .little

theorem order_eq_little_iff :
    f.order = .little ↔ swapped (f.fileSize / 2 ^ 32) ≤ swapped f.fileSize := by
  have hafter := @after_iff (littleBytes 4 (f.fileSize / 2 ^ 32)) (littleBytes 4 f.fileSize)
    (by rw [length_littleBytes, length_littleBytes])
  rw [swapped, swapped, ← Nat.not_lt, ← hafter, order]
  cases after (littleBytes 4 (f.fileSize / 2 ^ 32)) (littleBytes 4 f.fileSize) <;> simp

theorem order_of_lt (h : f.fileSize < 2 ^ 32) : f.order = .little := by
  rw [order_eq_little_iff, Nat.div_eq_of_lt h, swapped_zero]
  exact Nat.zero_le _

theorem headerOf_bytes {size : Nat} (hsize : size = f.order.ofBytes (littleBytes 4 f.size)) :
    headerOf f.bytes = if size ≤ 40 then
        .ok ⟨some f.dataSize, f.fileSize, f.order, 36 + reach f.bytes 36 (40 - size)⟩
      else if size = 41 then .ok ⟨some f.dataSize, f.fileSize, f.order, max 36 f.bytes.length⟩
      else .error .badValue := by
  have hfour : (ascii "RF64").length = 4 := rfl
  have htwelve : heading.length = 12 := rfl
  have hsignature : peek f.bytes 0 4 = ascii "RF64" := by rw [bytes_eq, peek_left hfour]
  have hheading : peek f.bytes 4 12 = heading := by
    rw [bytes_eq, peek_right 0 hfour, peek_left htwelve]
  have hlarge : headerOf f.bytes = largeHeader f.bytes := by
    rw [headerOf, hsignature]
    rfl
  have hword : word f.order f.bytes 16 4 = .ok size := by
    rw [word_of_peek f.peek_size (length_littleBytes ..), hsize]
  rw [hlarge, largeHeader, hheading, peek_low, peek_high, word_fileSize, word_dataSize,
    if_neg (fun h => h rfl)]
  change (Except.ok f.fileSize >>= fun fileEnd => Except.ok f.dataSize >>= fun known =>
    word f.order f.bytes 16 4 >>= fun size => _) = _
  simp only [ok_bind, hword]
  rfl

theorem headerOf_little (h : f.order = .little) :
    headerOf f.bytes = if f.size ≤ 40 then .ok ⟨some f.dataSize, f.fileSize, .little, 76 - f.size⟩
      else if f.size = 41 then .ok ⟨some f.dataSize, f.fileSize, .little, f.bytes.length⟩
      else .error .badValue := by
  have hsize : f.size = f.order.ofBytes (littleBytes 4 f.size) := by
    rw [h]
    exact (ofLittleBytes_littleBytes f.size_lt).symm
  have hlength := f.length_bytes
  have hleast : 28 ≤ f.size := Nat.add_le_add_left f.extra_length 16
  have hmax : max 36 f.bytes.length = f.bytes.length := by omega
  rw [f.headerOf_bytes hsize, h, hmax]
  split
  · have hbegin : 36 + reach f.bytes 36 (40 - f.size) = 76 - f.size := by
      rw [reach]
      omega
    rw [hbegin]
  · rfl

end Large

/-- The sizes that the header of a large file gives are always the stored ones. The header is read,
with the right byte order, exactly if the halves of the file's size do not suggest the other order
and the first section is small. -/
theorem headerOf_large_iff (f : Large) :
    (∀ h, headerOf f.bytes = .ok h → h.fileEnd = f.fileSize ∧ h.known = some f.dataSize) ∧
      ((∃ h, headerOf f.bytes = .ok h ∧ h.order = .little ∧ h.fileEnd = f.fileSize ∧
          h.known = some f.dataSize) ↔
        swapped (f.fileSize / 2 ^ 32) ≤ swapped f.fileSize ∧ f.size ≤ 41) := by
  have hheader : ∀ h, headerOf f.bytes = .ok h →
      h.fileEnd = f.fileSize ∧ h.known = some f.dataSize ∧ h.order = f.order := by
    intro h hh
    rw [f.headerOf_bytes rfl] at hh
    split at hh
    · cases hh
      exact ⟨rfl, rfl, rfl⟩
    · split at hh
      · cases hh
        exact ⟨rfl, rfl, rfl⟩
      · cases hh
  refine ⟨fun h hh => ⟨(hheader h hh).1, (hheader h hh).2.1⟩, ?_⟩
  rw [← f.order_eq_little_iff]
  constructor
  · rintro ⟨h, hh, horder, -, -⟩
    have hlittle : f.order = .little := (hheader h hh).2.2.symm.trans horder
    refine ⟨hlittle, ?_⟩
    by_contra hlarge
    rw [f.headerOf_little hlittle, if_neg (by omega), if_neg (by omega)] at hh
    cases hh
  · rintro ⟨hlittle, hsize⟩
    rw [f.headerOf_little hlittle]
    split
    · exact ⟨_, rfl, rfl, rfl, rfl⟩
    · rw [if_pos (by omega)]
      exact ⟨_, rfl, rfl, rfl, rfl⟩

def briefFormat : Section where
  id := ascii "fmt "
  body := [1, 0, 1, 0, 2, 0, 0, 0, 4, 0, 0, 0, 2, 0, 16, 0]
  filler := []
  id_length := rfl
  filler_length := rfl

def briefSound : Section where
  id := ascii "data"
  body := [0, 1, 255, 254]
  filler := []
  id_length := rfl
  filler_length := rfl

def briefBody : List UInt8 :=
  briefFormat.bytes .little ++ (ascii "data" ++ [255, 255, 255, 255] ++ briefSound.body ++ [])

def fourGibibytes : Large where
  fileSize := 2 ^ 32
  dataSize := 4
  extra := [2, 0, 0, 0, 0, 0, 0, 0, 0, 0, 0, 0]
  body := briefBody
  fileSize_lt := by decide
  dataSize_lt := by decide
  extra_length := by decide
  size_lt := by decide

theorem headerOf_fourGibibytes : headerOf fourGibibytes.bytes = .error .badValue := by
  rw [fourGibibytes.headerOf_bytes rfl, if_neg (by decide), if_neg (by decide)]

section Known

variable {o : ByteOrder} {s : Section} {mark : List UInt8}

theorem soundAt_known (l : Layout) (hsize : s.body.length < 2 ^ 32) (hmark : mark.length = 4) :
    soundAt o l (some s.body.length) (ascii "data" ++ mark ++ s.body) 4 =
      soundAt o l none (s.core o) 4 := by
  have hfour : (ascii "data").length = 4 := rfl
  have hfront : (ascii "data" ++ mark).length = 8 := by rw [length_append, hfour, hmark]
  have hlen : (ascii "data" ++ mark ++ s.body).length = (s.core o).length := by
    rw [length_append, hfront, s.length_core]
  have hdrop : (ascii "data" ++ mark ++ s.body).drop (4 + 4) = (s.core o).drop (4 + 4) := by
    rw [drop_left' hfront, Section.core,
      drop_left' (by rw [length_append, s.id_length, o.length_toBytes])]
  rw [soundAt, soundAt, word_of_le (by rw [length_append, hfront]; omega), s.word_core hsize]
  simp only [ok_bind, Option.getD_some, Option.getD_none, hlen, hdrop]

theorem sections_known (hid : s.id = ascii "data") (hsize : s.body.length < 2 ^ 32)
    (hmark : mark.length = 4) {file : List UInt8} {pos fileEnd : Nat}
    (hfile : ascii "data" ++ mark ++ s.body <+: file.drop pos) (hend : pos < fileEnd)
    (hlast : fileEnd ≤ pos + (8 + s.body.length + pad s.body.length)) (done : Progress) :
    sections o (some s.body.length) fileEnd file pos done = s.read o done := by
  have hfour : (ascii "data").length = 4 := rfl
  have hlen : (ascii "data" ++ mark ++ s.body).length = 8 + s.body.length := by
    rw [length_append, length_append, hfour, hmark]
  have hpeek : peek file pos 4 = ascii "data" := by
    have hfront := peek_of_front hfile (i := 0) (n := 4) (by omega)
    rw [append_assoc] at hfront
    exact hfront.trans (peek_left hfour)
  have hin : pos < file.length := by
    have := hfile.length_le
    rw [length_drop] at this
    omega
  have hstop : fileEnd ≤ pos + 4 + (4 + s.body.length + pad s.body.length) := by omega
  rw [sections, if_neg (by omega), dif_pos hin]
  have hother : ascii "data" ≠ ascii "fmt " := by decide
  simp only [hpeek, hfour, Nat.lt_irrefl, false_and, if_false, Section.read, hid, hother, if_true]
  cases done.layout with
  | none => rfl
  | some l =>
    have hsound : soundAt o l (some s.body.length) file (pos + 4) =
        (soundAt o l none (s.core o) 4).map
          fun r => (r.1, 4 + s.body.length + pad s.body.length) := by
      rw [soundAt_of_front l hfile hlen Option.getD_some, soundAt_known l hsize hmark]
    dsimp only
    rw [hsound]
    cases soundAt o l none (s.core o) 4 with
    | error e => rfl
    | ok r =>
      simp only [Except.map]
      rw [sections, if_pos hstop]

end Known

namespace Large

structure Carries (f : Large) (format sound : Section) : Prop where
  format_id : format.id = ascii "fmt "
  format_whole : format.Whole .little
  sound_id : sound.id = ascii "data"
  sound_nonempty : sound.body ≠ []
  body : ∃ mark, mark.length = 4 ∧ f.body = format.bytes .little ++
    (ascii "data" ++ mark ++ sound.body ++ sound.filler)
  dataSize : f.dataSize = sound.body.length
  fileSize : f.fileSize + 8 = f.bytes.length
  small : f.bytes.length < 2 ^ 32

def cut (f : Large) : Large where
  fileSize := f.fileSize - (f.size - 28)
  dataSize := f.dataSize
  extra := f.extra.take 12
  body := f.body
  fileSize_lt := by
    have := f.fileSize_lt
    omega
  dataSize_lt := f.dataSize_lt
  extra_length := by
    have := f.extra_length
    rw [length_take]
    omega
  size_lt := by
    rw [length_take]
    omega

variable {f : Large} {format sound : Section}

theorem size_cut (f : Large) : f.cut.size = 28 := by
  have := f.extra_length
  rw [size, cut, length_take]
  omega

theorem Carries.cut (h : f.Carries format sound) : f.cut.Carries format sound := by
  have hleast : 28 ≤ f.size := Nat.add_le_add_left f.extra_length 16
  have hbytes := f.length_bytes
  have hcut : f.cut.bytes.length = 48 + f.body.length := by
    rw [length_bytes, size_cut]
    rfl
  have hsize := h.fileSize
  have hsmall := h.small
  have hstored : f.cut.fileSize = f.fileSize - (f.size - 28) := rfl
  exact { h with
    fileSize := by omega
    small := by omega }

section Read

variable (h : f.Carries format sound)
include h

theorem Carries.length_body : f.body.length = 8 + format.body.length + pad format.body.length +
    (8 + sound.body.length + pad sound.body.length) := by
  obtain ⟨mark, hmark, hbody⟩ := h.body
  have hfour : (ascii "data").length = 4 := rfl
  rw [hbody, length_append, format.length_bytes, length_append, length_append,
    length_append, hfour, hmark, sound.filler_length]

theorem Carries.fileSize_lt : f.fileSize < 2 ^ 32 := by
  have := h.fileSize
  have := h.small
  omega

theorem Carries.sections_eq (hsize : f.size = 28) :
    sections .little (some sound.body.length) f.fileSize f.bytes 48 ⟨none, none⟩ =
      [format, sound].foldlM (Section.read .little) ⟨none, none⟩ := by
  obtain ⟨mark, hmark, hbody⟩ := h.body
  have hlength := f.length_bytes
  have hbodyLength := h.length_body
  have hstored := h.fileSize
  have hsmall := h.small
  have hnonempty := length_pos_iff.2 h.sound_nonempty
  have hdrop : f.bytes.drop 48 = f.body := by
    have hfront : (f.front ++ f.extra).length = 48 := by
      rw [length_append, length_front]
      rw [size] at hsize
      omega
    rw [bytes, drop_left' hfront]
  have hformat : format.core .little <+: f.bytes.drop 48 := by
    rw [hdrop, hbody, Section.bytes, append_assoc]
    exact prefix_append ..
  have hsound : ascii "data" ++ mark ++ sound.body <+:
      f.bytes.drop (48 + (8 + format.body.length + pad format.body.length)) := by
    rw [← drop_drop, hdrop, hbody, ← format.length_bytes (o := .little), drop_left]
    exact prefix_append ..
  rw [sections_of_front h.format_whole (by omega) hformat (by omega)
    (fun hid => absurd (h.format_id.symm.trans hid) (by decide)), foldlM_cons]
  congr 1
  funext done
  rw [sections_known h.sound_id (by omega) hmark hsound (by omega) (by omega), foldlM_cons]
  exact (bind_pure _).symm

theorem Carries.read_eq (hsize : f.size = 28) :
    read f.bytes = read (container .little [format, sound]) := by
  have hlength := f.length_bytes
  have hbodyLength := h.length_body
  have hsmall := h.small
  have hheader : headerOf f.bytes = .ok ⟨some sound.body.length, f.fileSize, .little, 48⟩ := by
    rw [f.headerOf_little (f.order_of_lt h.fileSize_lt), if_pos (by omega), h.dataSize, hsize]
  rw [read_container, ← h.sections_eq hsize, read, hheader]
  · rfl
  · rw [length_container]
    simp only [flatMap_cons, flatMap_nil, append_nil, length_append,
      Section.length_bytes]
    omega
  · simp only [forall_mem_cons, not_mem_nil, false_implies, implies_true, and_true]
    refine ⟨h.format_whole, fun _ => h.sound_nonempty, fun hid => ?_⟩
    exact absurd (h.sound_id.symm.trans hid) (by decide)

end Read

end Large

/-- Reading goes on right behind the first section of a large file exactly if that has the least
size, and then finds the sound. With a somewhat larger section it goes on too early, and a file with
a larger one still is refused. -/
theorem read_large {f : Large} {format sound : Section} (h : f.Carries format sound) :
    ((∃ hd, headerOf f.bytes = .ok hd ∧ hd.begin_ = 20 + f.size) ↔ f.size = 28) ∧
      read f.cut.bytes = read (container .little [format, sound]) ∧
      (f.size = 28 → read f.bytes = read f.cut.bytes) ∧
      (f.size ≤ 40 → ∃ hd, headerOf f.bytes = .ok hd ∧ hd.begin_ = 76 - f.size) ∧
      (41 < f.size → read f.bytes = .error .badValue) := by
  have hheader := f.headerOf_little (f.order_of_lt h.fileSize_lt)
  have hlength := f.length_bytes
  have hbody := h.length_body
  have hcut := h.cut.read_eq f.size_cut
  refine ⟨⟨?_, ?_⟩, hcut, ?_, ?_, ?_⟩
  · rintro ⟨hd, hhd, hbegin⟩
    rw [hheader] at hhd
    split at hhd
    · cases hhd
      dsimp only at hbegin
      omega
    · split at hhd
      · cases hhd
        dsimp only at hbegin
        omega
      · cases hhd
  · intro hsize
    rw [hheader, if_pos (by omega)]
    exact ⟨_, rfl, by dsimp only; omega⟩
  · intro hsize
    rw [hcut, h.read_eq hsize]
  · intro hsize
    rw [hheader, if_pos hsize]
    exact ⟨_, rfl, rfl⟩
  · intro hsize
    rw [read, hheader, if_neg (by omega), if_neg (by omega)]
    rfl

def tabled : Large where
  fileSize := 88
  dataSize := 4
  extra := [2, 0, 0, 0, 0, 0, 0, 0, 1, 0, 0, 0] ++ ascii "data" ++ [4, 0, 0, 0, 0, 0, 0, 0]
  body := briefBody
  fileSize_lt := by decide
  dataSize_lt := by decide
  extra_length := by decide
  size_lt := by decide

theorem carries_tabled : tabled.Carries briefFormat briefSound where
  format_id := rfl
  format_whole := ⟨by decide, by decide⟩
  sound_id := rfl
  sound_nonempty := by decide
  body := ⟨[255, 255, 255, 255], rfl, rfl⟩
  dataSize := rfl
  fileSize := by decide
  small := by decide

theorem read_large_tabled :
    (∃ hd, headerOf tabled.bytes = .ok hd ∧ hd.begin_ = 36) ∧
      ¬ (∃ hd, headerOf tabled.bytes = .ok hd ∧ hd.begin_ = 20 + tabled.size) ∧
      read tabled.cut.bytes = read (container .little [briefFormat, briefSound]) := by
  obtain ⟨hbehind, hcut, -, hbegin, -⟩ := read_large carries_tabled
  exact ⟨hbegin (by decide), fun h => absurd (hbehind.1 h) (by decide), hcut⟩

theorem read_tabled : read tabled.bytes = .error .unassigned ∧
    read tabled.cut.bytes = .ok ⟨2, ⟨.signed, 2, .little⟩, none, [256, 65279]⟩ := by
  decide +kernel

end Jumpcut.Wave
