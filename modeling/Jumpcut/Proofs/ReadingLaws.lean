import Jumpcut.Proofs.WaveLaws
import Mathlib.Logic.Relation

namespace Jumpcut.Wave

open Outcome List

theorem Samples.slice_subset (s : Samples) (lo hi : Nat) : s.slice lo hi ⊆ s.words :=
  fun _ h => mem_of_mem_drop (mem_of_mem_take h)

theorem Samples.frames_mul_le (s : Samples) : s.frames * s.channels.getD 1 ≤ s.words.length := by
  rw [frames]
  cases s.channels with
  | none => exact (Nat.mul_one _).le
  | some c => exact Nat.div_mul_le_self _ _

structure Samples.Regular (s : Samples) : Prop where
  valid : s.format.isValid
  words : ∀ w ∈ s.words, w < 256 ^ s.format.bytes
  rows : ∀ c ∈ s.channels, 2 ≤ c ∧ c ∣ s.words.length
  size : s.words.length * s.format.bytes < 2 ^ 63

variable {s : Samples} {o : ByteOrder} {f : SampleFormat} {known : Option Nat} {file : List UInt8}

theorem Samples.Regular.bytes_pos (hs : s.Regular) : 0 < s.format.bytes := by
  have hvalid := hs.valid
  rw [SampleFormat.isValid.eq_def] at hvalid
  refine Nat.pos_of_ne_zero fun hzero => ?_
  rw [hzero] at hvalid
  split at hvalid <;> simp at hvalid

theorem Samples.Regular.length_lt (hs : s.Regular) : s.words.length < 2 ^ 63 :=
  (Nat.le_mul_of_pos_right _ hs.bytes_pos).trans_lt hs.size

theorem ofLittleBytes_lt (bs : List UInt8) : ofLittleBytes bs < 256 ^ bs.length := by
  induction bs with
  | nil => exact Nat.one_pos
  | cons b bs ih =>
    have := b.toNat_lt
    rw [ofLittleBytes, length_cons, pow_succ]
    omega

theorem ByteOrder.ofBytes_lt (o : ByteOrder) (bs : List UInt8) : o.ofBytes bs < 256 ^ bs.length := by
  cases o with
  | little => exact ofLittleBytes_lt bs
  | big => simpa [ofBytes] using ofLittleBytes_lt bs.reverse

@[simp] theorem length_wordsOf (o : ByteOrder) (w n : Nat) (bs : List UInt8) :
    (wordsOf o w n bs).length = n := by
  induction n generalizing bs with
  | zero => rfl
  | succ n ih => rw [wordsOf, length_cons, ih]

theorem wordsOf_lt {w n : Nat} {bs : List UInt8} : ∀ x ∈ wordsOf o w n bs, x < 256 ^ w := by
  induction n generalizing bs with
  | zero => simp [wordsOf]
  | succ n ih =>
    rw [wordsOf, forall_mem_cons]
    refine ⟨(o.ofBytes_lt _).trans_le (Nat.pow_le_pow_right (by norm_num) ?_), ih⟩
    exact length_take_le w bs

theorem regular_arrange {channels : Nat} {words : List Nat} (h : arrange channels f words = .ok s)
    (hvalid : f.isValid) (hwords : ∀ w ∈ words, w < 256 ^ f.bytes)
    (hsize : words.length * f.bytes < 2 ^ 63) : s.Regular := by
  unfold arrange at h
  split at h
  · cases h
    exact ⟨hvalid, hwords, by simp, hsize⟩
  · rename_i hmany
    split at h
    · rename_i hfull
      cases h
      refine ⟨hvalid, hwords, ?_, hsize⟩
      rintro c ⟨⟩
      exact ⟨by omega, Nat.dvd_of_mod_eq_zero hfull⟩
    · split at h
      · rename_i hone
        cases h
        refine ⟨hvalid, fun w hw => hwords w ((dropLast_subset words) hw), ?_, ?_⟩
        · rintro c ⟨⟩
          rw [length_dropLast]
          exact ⟨by omega, Nat.dvd_of_mod_eq_zero hone⟩
        · rw [length_dropLast]
          exact (Nat.mul_le_mul_right _ (Nat.sub_le _ _)).trans_lt hsize
      · cases h

theorem regular_soundAt {l : Layout} {pos k : Nat} (h : soundAt o l known file pos = .ok (s, k)) :
    s.Regular := by
  obtain ⟨size, -, h⟩ := bind_eq_ok.1 h
  dsimp only at h
  split at h
  · cases h
  split at h
  · cases h
  split at h
  · cases h
  obtain ⟨f, hf, h⟩ := bind_eq_ok.1 h
  split at h
  · cases h
  rename_i hsize
  split at h
  · cases h
  obtain ⟨s', hs, h⟩ := bind_eq_ok.1 h
  cases h
  exact regular_arrange hs (Layout.sampleFormat_spec hf).1 wordsOf_lt
    (by rw [length_wordsOf]; exact not_le.1 hsize)

/-- A pass of the loop over the sections that is not its last. -/
inductive Pass (h : Header) (file : List UInt8) : Nat × Progress → Nat × Progress → Prop
  | layout {pos k : Nat} {done : Progress} {l : Layout} : pos < h.fileEnd →
    peek file pos 4 = ascii "fmt " → layoutAt h.order file (pos + 4) = .ok (l, k) →
    Pass h file (pos, done) (pos + 4 + k, { done with layout := some l })
  | sound {pos k : Nat} {done : Progress} {l : Layout} {s : Samples} : pos < h.fileEnd →
    peek file pos 4 = ascii "data" → done.layout = some l →
    soundAt h.order l h.known file (pos + 4) = .ok (s, k) →
    Pass h file (pos, done) (pos + 4 + k, { done with samples := some s })
  | other {pos k : Nat} {done : Progress} {id : List UInt8} : pos < h.fileEnd →
    peek file pos 4 = id → id ≠ [] → id ≠ ascii "fmt " → id ≠ ascii "data" →
    ¬ (id.length < 4 ∧ (done.layout.isNone ∨ done.samples.isNone)) →
    skipAt h.order file (pos + id.length) = .ok k →
    Pass h file (pos, done) (pos + id.length + k, done)

/-- Where the loop ends well: at the end that the header gives, or at that of the file itself. -/
def AtEnd (h : Header) (file : List UInt8) (x : Nat × Progress) : Prop :=
  h.fileEnd ≤ x.1 ∨ peek file x.1 4 = [] ∧ x.2.samples.isSome

variable {h : Header} {x y : Nat × Progress}

theorem peek_eq_nil_iff {pos n : Nat} : peek file pos (n + 1) = [] ↔ file.length ≤ pos := by
  rw [peek, take_eq_nil_iff, drop_eq_nil_iff]
  simp

theorem Pass.advances (hpass : Pass h file x y) : peek file x.1 4 ≠ [] ∧ x.1 < y.1 := by
  cases hpass with
  | layout _ hid _ | sound _ hid _ _ =>
    rw [hid]
    exact ⟨by decide, by dsimp only; omega⟩
  | other _ hid hne _ _ _ _ =>
    have := length_pos_iff.2 hne
    rw [hid]
    exact ⟨hne, by dsimp only; omega⟩

theorem Pass.rank_lt (hpass : Pass h file x y) : file.length - y.1 < file.length - x.1 := by
  have hlt := hpass.advances
  rw [ne_eq, peek_eq_nil_iff] at hlt
  omega

theorem Pass.regular (hpass : Pass h file x y) (hx : ∀ s ∈ x.2.samples, s.Regular) :
    ∀ s ∈ y.2.samples, s.Regular := by
  cases hpass with
  | layout | other => exact hx
  | sound _ _ _ hs =>
    rintro s ⟨⟩
    exact regular_soundAt hs

theorem regular_of_passes (hsteps : Relation.ReflTransGen (Pass h file) x y)
    (hx : ∀ s ∈ x.2.samples, s.Regular) : ∀ s ∈ y.2.samples, s.Regular := by
  induction hsteps with
  | refl => exact hx
  | tail _ hpass ih => exact hpass.regular ih

theorem sections_passes (h : Header) (file : List UInt8) (pos : Nat) (done : Progress) :
    ∃ x, Relation.ReflTransGen (Pass h file) (pos, done) x ∧ (∀ y, ¬ Pass h file x y) ∧
      (AtEnd h file x ∧ sections h.order h.known h.fileEnd file pos done = .ok x.2 ∨
        ¬ AtEnd h file x ∧ ∃ e, sections h.order h.known h.fileEnd file pos done = .error e) := by
  have hids : (ascii "fmt ").length = 4 ∧ (ascii "data").length = 4 ∧ ascii "fmt " ≠ ascii "data" := by
    decide
  obtain ⟨hfour, hfour', hne⟩ := hids
  have hnil := fun pos => @peek_eq_nil_iff file pos 3
  fun_induction sections h.order h.known h.fileEnd file pos done with
  | case1 pos done hend =>
    refine ⟨_, .refl, ?_, .inl ⟨.inl hend, rfl⟩⟩
    rintro y (_ | _ | _) <;> omega
  | case2 | case3 | case5 | case6 | case8 | case11 =>
    refine ⟨_, .refl, ?_, .inr ⟨by grind [AtEnd], _, rfl⟩⟩
    rintro y (_ | _ | _) <;> grind
  | case4 pos done hend hin id hshort hfmt l k hl ih =>
    obtain ⟨x, hsteps, hlast⟩ := ih
    rw [hfmt, hfour] at hl hsteps
    exact ⟨x, .head (.layout (not_le.1 hend) hfmt hl) hsteps, hlast⟩
  | case7 pos done hend hin id hshort hfmt hdata l hl s k hs ih =>
    obtain ⟨x, hsteps, hlast⟩ := ih
    rw [hdata, hfour'] at hs hsteps
    exact ⟨x, .head (.sound (not_le.1 hend) hdata hl hs) hsteps, hlast⟩
  | case9 pos done hend hin id hshort hfmt hdata k hk ih =>
    obtain ⟨x, hsteps, hlast⟩ := ih
    have hread : id ≠ [] := mt (hnil pos).1 (not_le.2 hin)
    exact ⟨x, .head (.other (not_le.1 hend) rfl hread hfmt hdata hshort hk) hsteps, hlast⟩
  | case10 pos done hend hout hsome =>
    refine ⟨_, .refl, ?_, .inl ⟨.inr ⟨(hnil pos).2 (not_lt.1 hout), hsome⟩, rfl⟩⟩
    rintro y (_ | _ | _) <;> grind

theorem read_regular {sound : Sound} (h : read file = .ok sound) : sound.samples.Regular := by
  obtain ⟨header, -, h⟩ := bind_eq_ok.1 h
  obtain ⟨done, hdone, h⟩ := bind_eq_ok.1 h
  obtain ⟨x, hsteps, -, ⟨-, hx⟩ | ⟨-, e, he⟩⟩ := sections_passes header file header.begin_ ⟨none, none⟩
  · cases hx.symm.trans hdone
    have hregular := regular_of_passes hsteps (by simp)
    split at h
    · rename_i l s hl hs
      cases h
      exact hregular s hs
    · cases h
  · cases he.symm.trans hdone

/-- The loop goes on only where it reads from the file and moves ahead, so that it has no more passes
than the file has bytes, and one more that ends it. Then all is read, or there is an error. -/
theorem read_terminates (file : List UInt8) :
    (∃ e, headerOf file = .error e ∧ read file = .error e) ∨
    ∃ h, headerOf file = .ok h ∧
      (∀ x y, Pass h file x y → peek file x.1 4 ≠ [] ∧ x.1 < y.1) ∧
      (∀ x xs, (x :: xs).IsChain (Pass h file) → xs.length ≤ file.length) ∧
      ∃ x, Relation.ReflTransGen (Pass h file) (h.begin_, ⟨none, none⟩) x ∧
        (∀ y, ¬ Pass h file x y) ∧
        (AtEnd h file x ∧ read file = x.2.sound ∨ ¬ AtEnd h file x ∧ ∃ e, read file = .error e) := by
  cases hheader : headerOf file with
  | error e => exact .inl ⟨e, rfl, by rw [read, hheader]; rfl⟩
  | ok h =>
    have hread : read file =
        sections h.order h.known h.fileEnd file h.begin_ ⟨none, none⟩ >>= Progress.sound := by
      rw [read, hheader, ok_bind]
      rfl
    obtain ⟨x, hsteps, hlast, hend⟩ := sections_passes h file h.begin_ ⟨none, none⟩
    refine .inr ⟨h, rfl, fun x y => Pass.advances, fun x xs hrun => ?_, x, hsteps, hlast, ?_⟩
    · exact (length_le_rank (fun x => file.length - x.1) (fun _ _ => Pass.rank_lt) hrun).trans
        (Nat.sub_le _ _)
    · rw [hread]
      rcases hend with ⟨hend, hok⟩ | ⟨hend, e, he⟩
      · exact .inl ⟨hend, by rw [hok, ok_bind]⟩
      · exact .inr ⟨hend, e, by rw [he]; rfl⟩

end Jumpcut.Wave
