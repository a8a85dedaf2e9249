import Jumpcut.Decimal.Fixed
import Jumpcut.Decimal.Reader
import Jumpcut.Proofs.ArithmeticLaws

namespace Jumpcut

open List Text Number

namespace Text

theorem ne_of_isDigit {c d : Char} (hc : c.isDigit) (hd : d.isDigit = false) : c ≠ d := by
  rintro rfl
  rw [hc] at hd
  cases hd

theorem notMem_of_isDigit {cs : List Char} (hcs : ∀ c ∈ cs, c.isDigit) {d : Char}
    (hd : d.isDigit = false) : d ∉ cs :=
  fun h => ne_of_isDigit (hcs d h) hd rfl

theorem digit?_of_isDigit {c : Char} (h : c.isDigit) : digit? c = some (c.toNat - '0'.toNat) := by
  obtain ⟨hlo, hhi⟩ : 48 ≤ c.toNat ∧ c.toNat ≤ 57 := Char.isDigit_iff_toNat.1 h
  rw [digit?, if_pos (by omega), if_pos ⟨hlo, hhi⟩]
  rfl

theorem isDigit_of_isDigit {c : Char} (h : c.isDigit) : isDigit c := by
  rw [isDigit, digit?_of_isDigit h]
  rfl

theorem ofDigits_map (cs : List Char) :
    ofDigits (cs.map fun c => c.toNat - '0'.toNat) = Nat.ofDigitChars 10 cs 0 := by
  rw [ofDigits, foldl_map, Nat.ofDigitChars_eq_foldl]

theorem isBlank_of_isDigit {c : Char} (h : c.isDigit) : ¬ isBlank c := by
  obtain ⟨hlo, hhi⟩ : 48 ≤ c.toNat ∧ c.toNat ≤ 57 := Char.isDigit_iff_toNat.1 h
  simp [isBlank, blankRanges]
  omega

theorem strip_ofList {cs : List Char} (h : ∀ c ∈ cs, ¬ isBlank c) :
    strip (String.ofList cs) = String.ofList cs := by
  have hdrop {ds : List Char} (hds : ∀ c ∈ ds, c ∈ cs) : ds.dropWhile isBlank = ds := by
    cases ds with
    | nil => rfl
    | cons d ds => rw [dropWhile_cons_of_neg (h d (hds d (.head _)))]
  rw [strip, String.toList_ofList, stripStart, hdrop fun _ => id, stripEnd,
    hdrop fun _ => mem_reverse.1, reverse_reverse]

end Text

namespace Decimal

/-- The characters are digits that spell a number; zeros may stand in front. -/
structure Spells (cs : List Char) (n : Nat) : Prop where
  nonempty : cs ≠ []
  digits : ∀ c ∈ cs, c.isDigit
  value : Nat.ofDigitChars 10 cs 0 = n

theorem spells_toDigits (n : Nat) : Spells (Nat.toDigits 10 n) n where
  nonempty := Nat.toDigits_ne_nil
  digits _ hc := Nat.isDigit_of_mem_toDigits (by decide) (by decide) hc
  value := Nat.ofDigitChars_ten_toDigits

variable {cs : List Char} {n : Nat}

theorem Spells.zeros (h : Spells cs n) (k : Nat) : Spells (List.replicate k '0' ++ cs) n where
  nonempty := by simp [h.nonempty]
  digits c hc := by
    rcases mem_append.1 hc with hc | hc
    · rw [eq_of_mem_replicate hc]
      rfl
    · exact h.digits c hc
  value := by rw [Nat.ofDigitChars_append, Nat.ofDigitChars_replicate_zero, Nat.mul_zero, h.value]

theorem moreDigits_append {rest : List Char} (hcs : ∀ c ∈ cs, c.isDigit)
    (hrest : ∀ c ∈ rest.head?, digit? c = none ∧ c ≠ '_') :
    moreDigits (cs ++ rest) = (cs.map fun c => c.toNat - '0'.toNat, rest) := by
  induction cs with
  | nil =>
    cases rest with
    | nil => rfl
    | cons c cs =>
      obtain ⟨hdigit, hline⟩ := hrest c rfl
      rw [nil_append, moreDigits, hdigit]
      · rfl
      · exact fun _ _ h => absurd h hline
  | cons c cs ih =>
    have hc : c.isDigit := hcs c (.head _)
    rw [cons_append, moreDigits, digit?_of_isDigit hc, ih fun d hd => hcs d (.tail _ hd)]
    · rfl
    · exact fun _ _ h => absurd h (ne_of_isDigit hc rfl)

theorem digitRun_append {cs rest : List Char} (hcs : ∀ c ∈ cs, c.isDigit)
    (hrest : ∀ c ∈ rest.head?, digit? c = none ∧ c ≠ '_') :
    digitRun (cs ++ rest) = (cs.map fun c => c.toNat - '0'.toNat, rest) := by
  cases cs with
  | nil =>
    cases rest with
    | nil => rfl
    | cons c cs =>
      rw [nil_append, digitRun, (hrest c rfl).1]
      rfl
  | cons c cs =>
    rw [cons_append, digitRun, digit?_of_isDigit (hcs c (.head _)),
      moreDigits_append (fun d hd => hcs d (.tail _ hd)) hrest]
    rfl

theorem digitRun_digits (hcs : ∀ c ∈ cs, c.isDigit) :
    digitRun cs = (cs.map fun c => c.toNat - '0'.toNat, []) := by
  have hrun := @digitRun_append cs [] hcs (by simp)
  rwa [append_nil] at hrun

theorem sign_of_isDigit (h : ∀ c ∈ cs.head?, c.isDigit) : sign cs = (false, cs) := by
  rw [sign]
  · rintro ds rfl
    cases h '-' rfl
  · rintro ds rfl
    cases h '+' rfl

theorem head_isDigit {ds : List Char} (hne : ds ≠ []) (hds : ∀ c ∈ ds, c.isDigit) (rest : List Char) :
    ∀ c ∈ (ds ++ rest).head?, c.isDigit := by
  intro c hc
  rw [head?_append_of_ne_nil _ hne] at hc
  exact hds c (mem_of_mem_head? hc)

theorem not_isBlank_of_digits {ds es : List Char} {sep : Char} (hsep : ¬ isBlank sep)
    (hds : ∀ c ∈ ds, c.isDigit) (hes : ∀ c ∈ es, c.isDigit) : ∀ c ∈ ds ++ sep :: es, ¬ isBlank c := by
  intro c hc
  rcases mem_append.1 hc with hc | hc
  · exact isBlank_of_isDigit (hds c hc)
  · rcases mem_cons.1 hc with rfl | hc
    · exact hsep
    · exact isBlank_of_isDigit (hes c hc)

theorem sign_strip (neg : Bool) (hblank : ∀ c ∈ cs, ¬ isBlank c)
    (hhead : ∀ c ∈ cs.head?, c.isDigit) :
    sign (strip (String.ofList ((if neg then ['-'] else []) ++ cs))).toList = (neg, cs) := by
  cases neg with
  | false =>
    change sign (strip (String.ofList cs)).toList = _
    rw [strip_ofList hblank, String.toList_ofList, sign_of_isDigit hhead]
  | true =>
    change sign (strip (String.ofList ('-' :: cs))).toList = _
    rw [strip_ofList (forall_mem_cons.2 ⟨by decide, hblank⟩), String.toList_ofList]
    rfl

theorem Spells.sign_strip (h : Spells cs n) (neg : Bool) :
    sign (strip (String.ofList ((if neg then ['-'] else []) ++ cs))).toList = (neg, cs) :=
  Decimal.sign_strip neg (fun c hc => isBlank_of_isDigit (h.digits c hc))
    fun c hc => h.digits c (mem_of_mem_head? hc)

theorem Spells.signed_int? (h : Spells cs n) (hlen : cs.length ≤ digitLimit) (neg : Bool) :
    int? (String.ofList ((if neg then ['-'] else []) ++ cs)) = some (signed neg n) := by
  rw [int?, h.sign_strip]
  dsimp only
  rw [digitRun_digits h.digits]
  simp only [isEmpty_map, length_map, ofDigits_map, h.value]
  rw [if_neg (by simp [h.nonempty, hlen])]

theorem Spells.int? (h : Spells cs n) (hlen : cs.length ≤ digitLimit) :
    int? (String.ofList cs) = some (n : Int) := h.signed_int? hlen false

theorem Spells.float? {ds es : List Char} (h : Spells (ds ++ es) n) (hne : ds ≠ []) :
    float? (String.ofList (ds ++ '.' :: es)) = some (nearest false n (-es.length)) := by
  have hds : ∀ c ∈ ds, c.isDigit := fun c hc => h.digits c (mem_append_left _ hc)
  have hes : ∀ c ∈ es, c.isDigit := fun c hc => h.digits c (mem_append_right _ hc)
  have hwhole : digitRun (ds ++ '.' :: es) = (ds.map fun c => c.toNat - '0'.toNat, '.' :: es) :=
    digitRun_append hds (by simp; decide)
  have hfront : decimalFront (ds ++ '.' :: es) = some (n, -(es.length : Int), []) := by
    rw [decimalFront, hwhole]
    simp [digitRun_digits hes, hne, exponent, ← map_append]
    exact (ofDigits_map _).trans h.value
  have hsign : sign (strip (String.ofList (ds ++ '.' :: es))).toList = (false, ds ++ '.' :: es) :=
    Decimal.sign_strip false (not_isBlank_of_digits (by decide) hds hes) (head_isDigit hne hds _)
  rw [Decimal.float?, floatFront, hsign]
  dsimp only
  rw [hfront]

theorem Spells.decimalFront (h : Spells cs n) : decimalFront cs = some (n, 0, []) := by
  rw [Decimal.decimalFront, digitRun_digits h.digits]
  simp [h.nonempty, exponent]
  exact (ofDigits_map _).trans h.value

theorem Spells.signed_float? (h : Spells cs n) (neg : Bool) :
    Decimal.float? (String.ofList ((if neg then ['-'] else []) ++ cs)) =
      some (nearest neg n 0) := by
  rw [Decimal.float?, floatFront, h.sign_strip]
  dsimp only
  rw [h.decimalFront]

theorem Spells.signed_fraction? (h : Spells cs n) (hlen : cs.length ≤ digitLimit) (neg : Bool) :
    fraction? (String.ofList ((if neg then ['-'] else []) ++ cs)) = .ok (signed neg n : Int) := by
  rw [fraction?, h.sign_strip]
  dsimp only
  rw [digitRun_digits h.digits]
  simp only [h.decimalFront, length_map]
  rw [if_neg (by omega)]
  simpa using Rat.mkRat_one (signed neg n)

theorem Spells.fraction?_over {ds : List Char} {d : Nat} (h : Spells cs n) (hlen : cs.length ≤ digitLimit)
    (hd : Spells ds d) (hlen' : ds.length ≤ digitLimit) (hpos : d ≠ 0) (neg : Bool) :
    fraction? (String.ofList ((if neg then ['-'] else []) ++ (cs ++ '/' :: ds))) =
      .ok (mkRat (signed neg n) d) := by
  rw [fraction?, Decimal.sign_strip neg (not_isBlank_of_digits (by decide) h.digits hd.digits)
    (head_isDigit h.nonempty h.digits _)]
  dsimp only
  rw [digitRun_append h.digits (by simp; decide)]
  simp only [digitRun_digits hd.digits, isEmpty_map, length_map, ofDigits_map, h.value,
    hd.value]
  rw [if_neg (by simp [h.nonempty, hd.nonempty]), if_neg (by simp [hlen, hlen']), if_neg hpos]

theorem toList_zeros (k : Nat) : (zeros k).toList = List.replicate k '0' := String.toList_ofList

theorem toList_toString (n : Nat) : (toString n).toList = Nat.toDigits 10 n := Nat.toList_repr

theorem exists_sign (a : Int) :
    ∃ neg, toString a = String.ofList ((if neg then ['-'] else []) ++ Nat.toDigits 10 a.natAbs) ∧
      signed neg a.natAbs = a := by
  cases a with
  | ofNat m =>
    refine ⟨false, ?_, rfl⟩
    change _ = String.ofList (Nat.toDigits 10 m)
    rw [← toList_toString]
    exact String.ofList_toList.symm
  | negSucc m =>
    refine ⟨true, ?_, rfl⟩
    have htext : toString (Int.negSucc m) = "-" ++ String.ofList (Nat.toDigits 10 (m + 1)) := rfl
    rw [htext]
    simp

theorem isWritable_iff {a : Int} :
    isWritable a ↔ (Nat.toDigits 10 a.natAbs).length ≤ digitLimit := by
  rw [isWritable, decide_eq_true_eq, Nat.pow_eq]
  have hpos : 0 < digitLimit := by decide
  generalize digitLimit = limit at hpos ⊢
  exact (Nat.length_toDigits_le_iff (by decide) hpos).symm

theorem int?_toString {a : Int} (h : isWritable a) : int? (toString a) = some a := by
  obtain ⟨neg, htext, hvalue⟩ := exists_sign a
  rw [htext, (spells_toDigits _).signed_int? (isWritable_iff.1 h), hvalue]

theorem fraction?_toString {a : Int} (h : isWritable a) : fraction? (toString a) = .ok a := by
  obtain ⟨neg, htext, hvalue⟩ := exists_sign a
  rw [htext, (spells_toDigits _).signed_fraction? (isWritable_iff.1 h), hvalue]

end Decimal

namespace Number

theorem not_mem_toString {c : Char} (hc : c ≠ '-' ∧ ¬ c.isDigit) (n : Int) :
    c ∉ (toString n).toList := by
  obtain ⟨neg, htext, -⟩ := Decimal.exists_sign n
  rw [htext, String.toList_ofList, mem_append]
  rintro (hmem | hmem)
  · cases neg with
    | false => cases hmem
    | true => exact hc.1 (mem_singleton.1 hmem)
  · exact hc.2 ((Decimal.spells_toDigits _).digits c hmem)

theorem isWritable_natCast {n : Nat} : isWritable n ↔ n < 10 ^ Decimal.digitLimit := by
  rw [isWritable, decide_eq_true_eq, Int.natAbs_natCast, Nat.pow_eq]

theorem intText_ok {n : Int} (h : isWritable n) : intText n = .ok (toString n) := if_pos h

theorem fracText_ok {q : Rat} (hnum : isWritable q.num) (hden : isWritable q.den) :
    fracText q = .ok (if q.den = 1 then toString q.num
      else toString q.num ++ "/" ++ toString (q.den : Int)) := by
  rw [fracText, intText_ok hnum, intText_ok hden]
  split <;> rfl

end Number

namespace Decimal

theorem withPlaces_spells {places : Nat} (hplaces : 0 < places) (n : Nat) :
    ∃ ds es, (withPlaces places n).toList = ds ++ '.' :: es ∧ ds ≠ [] ∧ es.length = places ∧
      Spells (ds ++ es) n := by
  set cs := zeros (places + 1 - (toString n).length) ++ toString n with hcs
  have hspells : Spells cs.toList n := by
    rw [hcs, String.toList_append, toList_zeros, toList_toString]
    exact (spells_toDigits n).zeros _
  have hlen : places < cs.length := by
    rw [hcs, String.length_append, ← String.length_toList, toList_zeros, length_replicate]
    omega
  refine ⟨cs.toList.take (cs.length - places), cs.toList.drop (cs.length - places), ?_, ?_, ?_, ?_⟩
  · rw [withPlaces]
    dsimp only
    rw [if_neg hplaces.ne', ← hcs]
    simp only [String.toList_append, String.toList_ofList, append_assoc]
    rfl
  · rw [ne_eq, take_eq_nil_iff, not_or]
    exact ⟨by omega, hspells.nonempty⟩
  · rw [length_drop, String.length_toList]
    omega
  · rwa [take_append_drop]

theorem toList_zeroPad (width : Nat) {s : String} (h : ∀ c ∈ s.toList.head?, c.isDigit) :
    (zeroPad width s).toList = List.replicate (width - s.toList.length) '0' ++ s.toList := by
  rw [zeroPad]
  split
  · next hs =>
    rw [hs] at h
    cases h '-' rfl
  · rw [String.toList_append, toList_zeros, String.toList_ofList]

end Decimal

namespace Exact

theorem classify_of_toFloat? {q : Rat} {x : Float} (h : toFloat? q = some x) (hq : 0 ≤ q) :
    ∃ m e, classify x = .finite false m e ∧ scaled m e = nearest q := by
  have hvalue := ofFloat?_of_toFloat? h
  obtain ⟨neg, m, e, hx⟩ := ofFloat?_finite hvalue
  obtain rfl : neg = false := by
    obtain ⟨b, hb, rfl⟩ := Option.map_eq_some_iff.1 h
    have hlt : b < 2047 * 2 ^ 52 := by
      rcases bitsOfRatio_spec q.num.natAbs q.den_pos with ⟨hnone, -⟩ | ⟨b', hb', hlt, -⟩
      · rw [hb] at hnone
        cases hnone
      · rw [hb] at hb'
        cases hb'
        exact hlt
    rw [if_neg (by rw [not_lt, Rat.num_nonneg]; exact hq)] at hx
    have hbits := toNat_toBits_ofBits (n := b) (by omega) (by omega)
    have hsign : (b / Nat.pow 2 63 == 1) = false := by
      rw [beq_eq_false_iff_ne]
      change b / 2 ^ 63 ≠ 1
      omega
    simp only [classify, hbits, hsign] at hx
    split at hx
    · split at hx <;> cases hx
    · split at hx <;> cases hx <;> rfl
  rw [ofFloat?, hx] at hvalue
  exact ⟨m, e, hx, Option.some.inj hvalue⟩

end Exact

namespace Decimal

open Exact

theorem fixedUnits_eq_round (places : Nat) {q : Rat} (hq : 0 ≤ q) :
    (fixedUnits places q : Int) = Exact.round (q * 10 ^ places) := by
  have hvalue : ((q.num.natAbs * Nat.pow 10 places : Nat) : Rat) / q.den = q * 10 ^ places := by
    have hnum : (q.num.natAbs : Rat) = q.num := by
      rw [Nat.cast_natAbs, abs_of_nonneg (Rat.num_nonneg.2 hq)]
    change ((q.num.natAbs * 10 ^ places : Nat) : Rat) / q.den = q * 10 ^ places
    rw [Nat.cast_mul, hnum, mul_div_right_comm, Rat.num_div_den]
    norm_cast
  rw [fixedUnits, roundDiv_eq_round _ q.den_pos, Int.cast_natCast, hvalue, Int.toNat_of_nonneg]
  exact le_round_of_le (by positivity)

theorem abs_fixedUnits_sub_le (places : Nat) {q : Rat} (hq : 0 ≤ q) :
    |(fixedUnits places q : Rat) - q * 10 ^ places| ≤ 1 / 2 := by
  have hround := abs_round_sub_le (q * 10 ^ places)
  rw [← fixedUnits_eq_round places hq] at hround
  exact_mod_cast hround

theorem abs_decimal_sub_le (places : Nat) {r : Rat} (hr : 0 ≤ r) (hr' : r ≤ 60) :
    |(fixedUnits places (Exact.nearest r) / 10 ^ places : Rat) - r| ≤
      1 / (2 * 10 ^ places) + 60 / 2 ^ 53 := by
  have hpow : (0 : Rat) < 10 ^ places := by positivity
  have hunits := abs_fixedUnits_sub_le places (nearest_nonneg hr)
  have hround : |Exact.nearest r - r| ≤ 60 / 2 ^ 53 :=
    abs_nearest_sub_le (by rwa [abs_of_nonneg hr])
      ((zpow_le_one_of_nonpos₀ (by norm_num) (by norm_num)).trans (by norm_num))
  have hdecimal : |(fixedUnits places (Exact.nearest r) / 10 ^ places : Rat) - Exact.nearest r| ≤
      1 / (2 * 10 ^ places) := by
    rw [div_sub' hpow.ne', abs_div, abs_of_pos hpow, div_le_iff₀ hpow]
    refine (le_of_eq ?_).trans (hunits.trans (le_of_eq ?_))
    · rw [mul_comm]
    · field_simp
  calc _ ≤ _ := abs_sub_le _ (Exact.nearest r) _
    _ ≤ _ := add_le_add hdecimal hround

theorem ofFloat?_nearest {m p : Nat} (hm : m ≤ 2 ^ 53) (hp : p ≤ 300) :
    ofFloat? (nearest false m (-p)) = some (Exact.nearest (m / 10 ^ p)) := by
  rw [nearest]
  dsimp only
  rw [if_neg Bool.false_ne_true]
  by_cases hzero : m = 0
  · rw [if_pos (.inl hzero), hzero, Nat.cast_zero, zero_div, nearest_zero]
    decide +kernel
  · have hlen : (Nat.toDigits 10 m).length ≤ 16 :=
      (Nat.length_toDigits_le_iff (by decide) (by decide)).2 (by omega)
    have hpos : 0 < (Nat.toDigits 10 m).length := Nat.length_toDigits_pos
    have hvalue : (if 0 ≤ (-p : Int) then mkRat (m * Nat.pow 10 (-p : Int).toNat : Nat) 1
        else mkRat m (Nat.pow 10 (- -(p : Int)).toNat)) = m / 10 ^ p := by
      cases p with
      | zero => simp [Rat.mkRat_eq_div]
      | succ p =>
        rw [if_neg (by omega), neg_neg, Int.toNat_natCast, Rat.mkRat_eq_div]
        change ((m : Int) : Rat) / ((10 ^ (p + 1) : Nat) : Rat) = m / 10 ^ (p + 1)
        rw [Int.cast_natCast, Nat.cast_pow, Nat.cast_ofNat]
    have hle : |(m / 10 ^ p : Rat)| ≤ largest := by
      apply le_largest
      rw [abs_of_nonneg (by positivity)]
      calc (m / 10 ^ p : Rat) ≤ m := div_le_self (by positivity) (one_le_pow₀ (by norm_num))
        _ ≤ 2 ^ 53 := by exact_mod_cast hm
    have hspec := toFloat?_spec (m / 10 ^ p)
    rw [inRange?_nearest hle] at hspec
    obtain ⟨x, hx, hx'⟩ := Option.map_eq_some_iff.1 hspec
    rw [if_neg hzero, if_neg (by omega), if_neg (by omega), hvalue, hx]
    exact hx'

theorem ofFloat?_nearest_whole (neg : Bool) {m : Nat} (hm : m < 2 ^ 53) :
    ofFloat? (nearest neg m 0) = some (signed neg m : Int) := by
  have hgrid : OnGrid (m : Rat) := by
    exact_mod_cast @onGrid_intCast m (by simpa using mod_cast hm)
  have hvalue := @ofFloat?_nearest m 0 hm.le (by norm_num)
  rw [pow_zero, div_one, nearest_eq_self hgrid] at hvalue
  cases neg with
  | false => simpa [signed] using hvalue
  | true =>
    have hneg := ofFloat?_neg hvalue
    simpa [signed, nearest] using hneg

end Decimal

end Jumpcut
