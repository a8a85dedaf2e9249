import Jumpcut.Proofs.DecimalLaws
import Jumpcut.Proofs.SyntaxLaws

/-!
How reading an edit script can fail. A fault of a script has a message for its author; three other
faults come up, at a text literal that breaks off behind a backslash, at a number over zero and at an
application without an operator. Main statement: reading ends in one of these exactly if it gets to such
a place (`read_reported_iff`).
-/
namespace Jumpcut

open Decimal
open List hiding next?

namespace Decimal

def OverZero (cs : List Char) : Prop :=
  ∃ sgn num den n, cs = sgn ++ (num ++ '/' :: den) ∧ sgn ∈ [[], ['+'], ['-']] ∧
    (Spells num n ∧ num.length ≤ digitLimit) ∧ Spells den 0 ∧ den.length ≤ digitLimit

variable {cs : List Char}

theorem fraction?_eq_zeroDenominator {s : String} :
    fraction? s = .error .zeroDenominator ↔
      ∃ num after den, digitRun (sign (Text.strip s).toList).2 = (num, '/' :: after) ∧
        digitRun after = (den, []) ∧ (num ≠ [] ∧ num.length ≤ digitLimit) ∧
        (den ≠ [] ∧ den.length ≤ digitLimit) ∧ Text.ofDigits den = 0 := by
  rw [fraction?]
  generalize sign (Text.strip s).toList = signed
  obtain ⟨neg, cs⟩ := signed
  dsimp only
  generalize digitRun cs = front
  obtain ⟨num, rest⟩ := front
  dsimp only
  split
  · next after =>
    cases hback : digitRun after with
    | mk den left =>
      cases left with
      | cons c left => simp [hback]
      | nil =>
        dsimp only
        constructor
        · intro h
          split_ifs at h with hempty hlong hzero
          · cases h
          · cases h
          · simp only [Bool.or_eq_true, List.isEmpty_iff, not_or] at hempty
            simp only [Bool.or_eq_true, decide_eq_true_eq, not_or, not_lt] at hlong
            exact ⟨num, after, den, rfl, hback, ⟨hempty.1, hlong.1⟩, ⟨hempty.2, hlong.2⟩, hzero⟩
        · rintro ⟨num', after', den', heq, hden, ⟨hnum, hnumLen⟩, ⟨hne, hlen⟩, hzero⟩
          obtain ⟨rfl, hafter⟩ := Prod.mk.inj heq
          obtain rfl := (List.cons.inj hafter).2
          obtain rfl := (Prod.mk.inj (hback.symm.trans hden)).1
          rw [if_neg (by simp [hnum, hne]), if_neg (by simp [hnumLen, hlen]), if_pos hzero]
  · next hslash =>
    constructor
    · intro h
      split at h
      · split at h
        · cases h
        · split at h <;> cases h
      · cases h
    · rintro ⟨num', after, den, h, -⟩
      obtain ⟨-, rfl⟩ := Prod.mk.inj h
      exact absurd rfl (hslash after)

theorem digitRun_of_plain (h : ∀ c ∈ cs, c.isDigit ∨ Text.digit? c = none ∧ c ≠ '_') :
    digitRun cs =
      ((cs.takeWhile Char.isDigit).map fun c => c.toNat - '0'.toNat, cs.dropWhile Char.isDigit) := by
  have hdigits : ∀ c ∈ cs.takeWhile Char.isDigit, c.isDigit := fun c hc => mem_takeWhile_imp hc
  have hrest : ∀ c ∈ (cs.dropWhile Char.isDigit).head?, Text.digit? c = none ∧ c ≠ '_' := by
    intro c hc
    have hmem : c ∈ cs := (dropWhile_sublist _).subset (mem_of_mem_head? hc)
    have hnot := head?_dropWhile_not Char.isDigit cs
    rw [hc] at hnot
    exact (h c hmem).resolve_left (by simpa using hnot)
  have hrun := digitRun_append hdigits hrest
  rwa [takeWhile_append_dropWhile] at hrun

theorem spells_of_digitRun {ds : List Nat} {rest : List Char}
    (hplain : ∀ c ∈ cs, c.isDigit ∨ Text.digit? c = none ∧ c ≠ '_')
    (h : digitRun cs = (ds, rest)) (hne : ds ≠ []) (hlen : ds.length ≤ digitLimit) :
    ∃ num, cs = num ++ rest ∧ Spells num (Text.ofDigits ds) ∧ num.length ≤ digitLimit := by
  rw [digitRun_of_plain hplain] at h
  obtain ⟨rfl, rfl⟩ := Prod.mk.inj h
  refine ⟨cs.takeWhile Char.isDigit, takeWhile_append_dropWhile.symm, ⟨?_, ?_, ?_⟩, ?_⟩
  · simpa using hne
  · exact fun c hc => mem_takeWhile_imp hc
  · rw [Text.ofDigits_map]
  · simpa using hlen

theorem sign_split (cs : List Char) : ∃ sgn ∈ [[], ['+'], ['-']], cs = sgn ++ (sign cs).2 := by
  rw [sign.eq_def]
  split
  · exact ⟨['-'], by simp, rfl⟩
  · exact ⟨['+'], by simp, rfl⟩
  · exact ⟨[], by simp, rfl⟩

theorem sign_append {sgn num rest : List Char} (hsgn : sgn ∈ [[], ['+'], ['-']]) (hne : num ≠ [])
    (hnum : ∀ c ∈ num, c.isDigit) : (sign (sgn ++ (num ++ rest))).2 = num ++ rest := by
  simp only [mem_cons, not_mem_nil, or_false] at hsgn
  rcases hsgn with rfl | rfl | rfl
  · rw [nil_append, sign_of_isDigit]
    intro c hc
    rw [head?_append_of_ne_nil _ hne] at hc
    exact hnum c (mem_of_mem_head? hc)
  · rfl
  · rfl

theorem fraction?_overZero_iff (hblank : ∀ c ∈ cs, ¬ Text.isBlank c)
    (hplain : ∀ c ∈ cs, c.isDigit ∨ Text.digit? c = none ∧ c ≠ '_') :
    fraction? (String.ofList cs) = .error .zeroDenominator ↔ OverZero cs := by
  rw [fraction?_eq_zeroDenominator, Text.strip_ofList hblank, String.toList_ofList]
  constructor
  · rintro ⟨ds, after, es, hnum, hden, ⟨hds, hdsLen⟩, ⟨hes, hesLen⟩, hzero⟩
    obtain ⟨sgn, hsgn, hcs⟩ := sign_split cs
    rw [hcs] at hplain
    obtain ⟨num, hfront, hspells, hlen⟩ :=
      spells_of_digitRun (fun c hc => hplain c (mem_append_right _ hc)) hnum hds hdsLen
    rw [hfront] at hcs hplain
    obtain ⟨den, hback, hspells', hlen'⟩ :=
      spells_of_digitRun (fun c hc => hplain c (by simp [hc])) hden hes hesLen
    rw [append_nil] at hback
    rw [hzero] at hspells'
    exact ⟨sgn, num, den, _, hback ▸ hcs, hsgn, ⟨hspells, hlen⟩, hspells', hlen'⟩
  · rintro ⟨sgn, num, den, n, rfl, hsgn, ⟨hnum, hlen⟩, hden, hlen'⟩
    have hslash : ∀ c ∈ ('/' :: den).head?, Text.digit? c = none ∧ c ≠ '_' := by
      simp only [head?_cons, Option.mem_some_iff, forall_eq']
      decide
    rw [sign_append hsgn hnum.nonempty hnum.digits, digitRun_append hnum.digits hslash]
    refine ⟨_, den, _, rfl, digitRun_digits hden.digits, ?_, ?_, ?_⟩
    · simp [hnum.nonempty, hlen]
    · simp [hden.nonempty, hlen']
    · rw [Text.ofDigits_map, hden.value]

end Decimal

namespace Script

namespace Token

inductive BreaksOff : List Char → Prop
  | slash : BreaksOff ['\\']
  | plain {c cs} : c ≠ '"' → c ≠ '\\' → BreaksOff cs → BreaksOff (c :: cs)
  | escape {c cs} : c ∈ ['n', 't', '"', '\\'] → BreaksOff cs → BreaksOff ('\\' :: c :: cs)

def ZeroNumeral (cs : List Char) : Prop :=
  ∃ body unit tail, cs = body ++ (unit ++ tail) ∧ OverZero body ∧
    (String.ofList unit = "" ∨ String.ofList unit ∈ secondUnits) ∧ ∀ c ∈ tail.head?, ¬ isPlain c

/-- Texts that begin with no token, and the fault that is met there without a message. -/
inductive Malformed : Fault → List Char → Prop
  | literal {cs} : BreaksOff cs → Malformed .wrongKind ('"' :: cs)
  | numeral {cs} : ZeroNumeral cs → Malformed .divisionByZero cs

variable {c : Char} {cs : List Char} {e : Fault}

theorem map_eq_error {α β : Type} {x : Except Fault α} {f : α → β} :
    x.map f = .error e ↔ x = .error e := by
  cases x with
  | error e' => simp [Except.map]
  | ok a => simp [Except.map]

theorem literal_plain (hquote : c ≠ '"') (hslash : c ≠ '\\') :
    literal (c :: cs) = (literal cs).map fun r => (c :: r.1, r.2) := by
  rw [literal]
  · exact hquote
  · exact fun h => absurd h hslash
  · exact fun _ _ h => absurd h hslash

theorem ne_slash (hlast : c = '\\' → cs = [] → False)
    (hmore : ∀ d ds, c = '\\' → cs = d :: ds → False) : c ≠ '\\' := by
  intro hc
  cases cs with
  | nil => exact hlast hc rfl
  | cons d ds => exact hmore d ds hc rfl

theorem literal_error (h : literal cs = .error e) :
    (∃ e', e = .script e') ∨ e = .wrongKind ∧ BreaksOff cs := by
  induction cs using literal.induct with
  | case1 => cases h
  | case2 cs => cases h
  | case3 => cases h; exact .inr ⟨rfl, .slash⟩
  | case4 cs ih | case5 cs ih | case6 cs ih | case7 cs ih =>
    rw [literal, map_eq_error] at h
    exact (ih h).imp_right fun hbreak => ⟨hbreak.1, .escape (by simp) hbreak.2⟩
  | case8 c cs h₁ h₂ h₃ h₄ =>
    simp only [literal, Except.error.injEq] at h
    exact .inl ⟨_, h.symm⟩
  | case9 c cs hquote hlast hmore ih =>
    have hslash := ne_slash hlast hmore
    rw [literal_plain hquote hslash, map_eq_error] at h
    exact (ih h).imp_right fun hbreak => ⟨hbreak.1, .plain hquote hslash hbreak.2⟩

theorem literal_of_breaksOff (h : BreaksOff cs) : literal cs = .error .wrongKind := by
  induction h with
  | slash => rfl
  | plain hquote hslash _ ih =>
    rw [literal_plain hquote hslash, ih]
    rfl
  | escape hc _ ih =>
    simp only [mem_cons, not_mem_nil, or_false] at hc
    rcases hc with rfl | rfl | rfl | rfl <;> rw [literal, ih] <;> rfl

theorem plain_of_isNumeric (h : isNumeric c) :
    (isPlain c ∧ c ≠ '"' ∧ bracket? c = none) ∧
      ¬ Text.isBlank c ∧ (c.isDigit ∨ Text.digit? c = none ∧ c ≠ '_') := by
  simp only [isNumeric, String.reduceToList, contains_eq_mem, mem_cons, not_mem_nil,
    or_false, decide_eq_true_eq] at h
  rcases h with rfl | rfl | rfl | rfl | rfl | rfl | rfl | rfl | rfl | rfl | rfl | rfl | rfl | rfl <;>
    exact ⟨⟨by decide, by decide, rfl⟩, by decide, by decide⟩

theorem isNumeric_of_startsNumber (h : startsNumber c) : isNumeric c := by
  simp only [startsNumber, String.reduceToList, contains_eq_mem, mem_cons,
    not_mem_nil, or_false, decide_eq_true_eq] at h
  rcases h with rfl | rfl | rfl | rfl | rfl | rfl | rfl | rfl | rfl | rfl | rfl <;> rfl

theorem startsNumber_of_isDigit (h : c.isDigit) : startsNumber c := by
  obtain ⟨hlo, hhi⟩ : 48 ≤ c.toNat ∧ c.toNat ≤ 57 := Char.isDigit_iff_toNat.1 h
  rw [← Char.ofNat_toNat c]
  generalize c.toNat = n at hlo hhi
  interval_cases n <;> rfl

theorem isNumeric_of_isDigit (h : c.isDigit) : isNumeric c :=
  isNumeric_of_startsNumber (startsNumber_of_isDigit h)

theorem unit_chars {unit : List Char}
    (h : String.ofList unit = "" ∨ String.ofList unit ∈ secondUnits) :
    (∀ c ∈ unit, isPlain c) ∧ ∀ c ∈ unit.head?, ¬ isNumeric c := by
  have hmem : unit ∈ ("" :: secondUnits).map String.toList := by
    refine mem_map.2 ⟨String.ofList unit, ?_, String.toList_ofList⟩
    simpa using h
  simp only [secondUnits, map_cons, String.toList_empty, String.reduceToList, map_nil,
    mem_cons, not_mem_nil, or_false] at hmem
  rcases hmem with rfl | rfl | rfl | rfl | rfl | rfl <;> simp [isPlain, isBlank, isNumeric]

theorem ofNumeral_error {body unit : String} (h : ofNumeral body unit = .error e) :
    e = .divisionByZero ∧ (unit = "" ∨ unit ∈ secondUnits) ∧
      fraction? body = .error .zeroDenominator := by
  rw [ofNumeral] at h
  split at h
  · split at h <;> cases h
  · split at h
    · cases h
    · next hunit =>
      dsimp only at h
      split at h
      · split at h
        · cases h
        · cases h
        · next hzero =>
          cases h
          exact ⟨rfl, by simpa [Classical.or_iff_not_imp_left] using hunit, hzero⟩
      · split at h
        · split at h <;> cases h
        · split at h <;> cases h

theorem ofNumeral_zero {body unit : String} (hunit : unit = "" ∨ unit ∈ secondUnits)
    (hslash : '/' ∈ body.toList) (hzero : fraction? body = .error .zeroDenominator) :
    ofNumeral body unit = .error .divisionByZero := by
  have hi : unit ≠ "i" := by
    rintro rfl
    revert hunit
    decide
  have hseconds : ¬ (unit ≠ "" ∧ unit ∉ secondUnits) := by
    simpa [Classical.or_iff_not_imp_left] using hunit
  rw [ofNumeral, if_neg hi, if_neg hseconds]
  dsimp only
  rw [if_pos (contains_iff_mem.2 hslash), hzero]

theorem fraction?_zero_iff {body : List Char} (h : ∀ c ∈ body, isNumeric c) :
    fraction? (String.ofList body) = .error .zeroDenominator ↔ OverZero body :=
  fraction?_overZero_iff (fun c hc => (plain_of_isNumeric (h c hc)).2.1)
    fun c hc => (plain_of_isNumeric (h c hc)).2.2

theorem numeral_error (hc : isNumeric c) (h : numeral c cs = .error e) :
    e = .divisionByZero ∧ ZeroNumeral (c :: cs) := by
  rw [numeral, map_eq_error] at h
  obtain ⟨he, hunit, hzero⟩ := ofNumeral_error h
  have hbody : ∀ d ∈ c :: cs.takeWhile isNumeric, isNumeric d := by
    intro d hd
    rcases mem_cons.1 hd with rfl | hd
    · exact hc
    · exact mem_takeWhile_imp hd
  refine ⟨he, _, _, (cs.dropWhile isNumeric).dropWhile isPlain, ?_, (fraction?_zero_iff hbody).1 hzero,
    hunit, ?_⟩
  · rw [takeWhile_append_dropWhile, cons_append, takeWhile_append_dropWhile]
  · intro d hd
    have hnot := head?_dropWhile_not isPlain (cs.dropWhile isNumeric)
    rw [hd] at hnot
    simpa using hnot

def StartsNumeral (c : Char) (cs : List Char) : Prop :=
  (c = '+' ∨ c = '-') ∧ cs.head?.any startsNumber ∨ startsNumber c

theorem StartsNumeral.isNumeric (h : StartsNumeral c cs) : isNumeric c := by
  rcases h with ⟨rfl | rfl, -⟩ | h
  · rfl
  · rfl
  · exact isNumeric_of_startsNumber h

theorem exists_startsNumeral {sgn num : List Char} (hsgn : sgn ∈ [[], ['+'], ['-']]) (hne : num ≠ [])
    (hnum : ∀ c ∈ num, c.isDigit) (mid rest : List Char) :
    ∃ c ds, sgn ++ (num ++ mid) = c :: ds ∧ StartsNumeral c (ds ++ rest) := by
  obtain ⟨d, num, rfl⟩ := exists_cons_of_ne_nil hne
  have hd : startsNumber d := startsNumber_of_isDigit (hnum d (.head _))
  simp only [mem_cons, not_mem_nil, or_false] at hsgn
  rcases hsgn with rfl | rfl | rfl
  · exact ⟨d, _, rfl, .inr hd⟩
  · exact ⟨'+', _, rfl, .inl ⟨.inl rfl, hd⟩⟩
  · exact ⟨'-', _, rfl, .inl ⟨.inr rfl, hd⟩⟩

theorem startingWith_numeral (h : StartsNumeral c cs) : startingWith c cs = numeral c cs := by
  obtain ⟨-, hquote, hbracket⟩ := (plain_of_isNumeric h.isNumeric).1
  rw [startingWith, if_neg hquote, hbracket]
  dsimp only
  rcases h with h | h
  · rw [if_pos h]
  · rw [if_pos h, ite_self]

theorem hash_error (h : hash cs = .error e) : ∃ e', e = .script e' := by
  rw [hash.eq_def] at h
  split at h
  · cases h
  · cases h
    exact ⟨_, rfl⟩
  · dsimp only at h
    split at h
    · cases h
    · split at h
      · cases h
      · cases h
        exact ⟨_, rfl⟩

theorem quote_error (h : quote cs = .error e) : ∃ e', e = .script e' := by
  rw [quote.eq_def] at h
  split at h
  · cases h
  · cases h
    exact ⟨_, rfl⟩
  · cases h
    exact ⟨_, rfl⟩

theorem word_error (h : word c cs = .error e) : ∃ e', e = .script e' := by
  simp only [word] at h
  split at h
  · cases h
    exact ⟨_, rfl⟩
  · split at h <;> cases h

theorem startingWith_error (h : startingWith c cs = .error e) :
    (∃ e', e = .script e') ∨ Malformed e (c :: cs) := by
  have hnumeral (hstart : StartsNumeral c cs) (hn : numeral c cs = .error e) :
      Malformed e (c :: cs) := by
    obtain ⟨rfl, hzero⟩ := numeral_error hstart.isNumeric hn
    exact .numeral hzero
  rw [startingWith] at h
  split at h
  · next hc =>
    rw [map_eq_error] at h
    refine (literal_error h).imp_right fun hbreak => ?_
    rw [hbreak.1, hc]
    exact .literal hbreak.2
  · split at h
    · cases h
    · split at h
      · next hsign => exact .inr (hnumeral (.inl hsign) h)
      · split at h
        · next hdigit => exact .inr (hnumeral (.inr hdigit) h)
        · split at h
          · exact .inl (hash_error h)
          · split at h
            · exact .inl (quote_error h)
            · exact .inl (word_error h)

end Token

end Script

namespace Decimal.OverZero

open Script.Token

variable {cs : List Char}

theorem numeric (h : OverZero cs) : ∀ c ∈ cs, isNumeric c := by
  obtain ⟨sgn, num, den, n, rfl, hsgn, ⟨hnum, -⟩, hden, -⟩ := h
  intro c hc
  rcases mem_append.1 hc with hc | hc
  · simp only [mem_cons, not_mem_nil, or_false] at hsgn
    rcases hsgn with rfl | rfl | rfl
    · cases hc
    · rw [mem_singleton.1 hc]
      rfl
    · rw [mem_singleton.1 hc]
      rfl
  · rcases mem_append.1 hc with hc | hc
    · exact isNumeric_of_isDigit (hnum.digits c hc)
    · rcases mem_cons.1 hc with rfl | hc
      · rfl
      · exact isNumeric_of_isDigit (hden.digits c hc)

theorem slash_mem (h : OverZero cs) : '/' ∈ cs := by
  obtain ⟨sgn, num, den, n, rfl, -⟩ := h
  simp

theorem starts (h : OverZero cs) (rest : List Char) :
    ∃ c ds, cs = c :: ds ∧ StartsNumeral c (ds ++ rest) := by
  obtain ⟨sgn, num, den, n, rfl, hsgn, ⟨hnum, -⟩, -⟩ := h
  exact exists_startsNumeral hsgn hnum.nonempty hnum.digits _ rest

end Decimal.OverZero

namespace Script

namespace Token

variable {c : Char} {cs : List Char} {e : Fault}

theorem span_append {p : Char → Bool} {xs ys : List Char} (hxs : ∀ c ∈ xs, p c)
    (hys : ∀ c ∈ ys.head?, ¬ p c) : (xs ++ ys).takeWhile p = xs ∧ (xs ++ ys).dropWhile p = ys := by
  rw [takeWhile_append_of_pos hxs, dropWhile_append_of_pos hxs]
  cases ys with
  | nil => simp
  | cons y ys =>
    rw [takeWhile_cons_of_neg (hys y rfl), dropWhile_cons_of_neg (hys y rfl)]
    simp

theorem startingWith_of_zeroNumeral (h : ZeroNumeral (c :: cs)) :
    startingWith c cs = .error .divisionByZero := by
  obtain ⟨body, unit, tail, hcs, hzero, hunit, htail⟩ := h
  obtain ⟨d, ds, rfl, hstart⟩ := hzero.starts (unit ++ tail)
  rw [cons_append] at hcs
  obtain ⟨rfl, rfl⟩ := List.cons.inj hcs
  obtain ⟨hplain, hhead⟩ := unit_chars hunit
  have hstop : ∀ x ∈ (unit ++ tail).head?, ¬ isNumeric x := by
    intro x hx hnumeric
    cases unit with
    | nil => exact htail x hx (plain_of_isNumeric hnumeric).1.1
    | cons u us => exact hhead x hx hnumeric
  obtain ⟨hbody, hafter⟩ := span_append (fun x hx => hzero.numeric x (.tail _ hx)) hstop
  rw [startingWith_numeral hstart, numeral, hbody, hafter, (span_append hplain htail).1,
    ofNumeral_zero hunit _ ((fraction?_zero_iff hzero.numeric).2 hzero)]
  · rfl
  · rw [String.toList_ofList]
    exact hzero.slash_mem

theorem startingWith_of_malformed (h : Malformed e (c :: cs)) : startingWith c cs = .error e := by
  cases h with
  | literal hbreak =>
    rw [startingWith, if_pos rfl, literal_of_breaksOff hbreak]
    rfl
  | numeral hzero => exact startingWith_of_zeroNumeral hzero

theorem next?_error (h : next? cs = .error e) :
    (∃ e', e = .script e') ∨ Malformed e (skip false cs) := by
  rw [next?] at h
  split at h
  · cases h
  · next c cs' hskip =>
    rw [map_eq_error] at h
    rw [hskip]
    exact startingWith_error h

theorem next?_of_malformed (h : Malformed e (skip false cs)) : next? cs = .error e := by
  rw [next?]
  split
  · next hskip =>
    rw [hskip] at h
    cases h with
    | numeral hzero =>
      obtain ⟨body, unit, tail, hnil, hover, -⟩ := hzero
      obtain ⟨c, ds, rfl, -⟩ := hover.starts []
      cases hnil
  · next c cs' hskip =>
    rw [hskip] at h
    rw [startingWith_of_malformed h]
    rfl

end Token

open Reader Token

/-- The tokens at the front of a text, and what follows them. -/
inductive Scans : List Char → List Token → List Char → Prop
  | nil {cs} : Scans cs [] cs
  | next {cs ts rest t rest'} : Scans cs ts rest → next? rest = .ok (some (t, rest')) →
      Scans cs (ts ++ [t]) rest'

/-- What the reader, with these frames open, meets next: a fault that has no message. -/
inductive Snags : Fault → List Frame → List Char → Prop
  | token {e fs cs} : Malformed e (skip false cs) → Snags e fs cs
  | group {b fs cs rest o} : next? cs = .ok (some (.closer b, rest)) → next? rest = .ok o →
      Snags .outOfRange (⟨.bracket b, []⟩ :: fs) cs
  | behind {e b fs cs rest} : next? cs = .ok (some (.closer b, rest)) →
      Malformed e (skip false rest) → Snags e (⟨.bracket b, []⟩ :: fs) cs
  | stray {c fs cs rest} : next? cs = .ok (some (.closer c, rest)) →
      Snags .outOfRange (⟨.stray, []⟩ :: fs) cs
  | last {fs cs} : next? cs = .ok none → Snags .outOfRange (⟨.stray, []⟩ :: fs) cs

def Trips (text : String) (e : Fault) : Prop :=
  ∃ ts fs rest, Scans text.toList ts rest ∧ Leads ts fs ∧ Snags e fs rest

variable {cs rest rest' : List Char} {ts : List Token} {fs : List Frame} {t : Token} {e : Fault}

theorem scan_of_error (h : next? cs = .error e) : scan cs = ⟨[], some e⟩ := by
  rw [scan]
  split <;> simp_all

theorem scan_of_none (h : next? cs = .ok none) : scan cs = ⟨[], none⟩ := by
  rw [scan]
  split <;> simp_all

theorem scan_of_some (h : next? cs = .ok (some (t, rest))) :
    scan cs = ⟨t :: (scan rest).tokens, (scan rest).stop⟩ := by
  rw [scan]
  split <;> simp_all

theorem Scans.scan_eq (h : Scans cs ts rest) :
    scan cs = ⟨ts ++ (scan rest).tokens, (scan rest).stop⟩ := by
  induction h with
  | nil => rfl
  | next _ hnext ih => rw [ih, scan_of_some hnext, append_assoc, singleton_append]

theorem parse_of_scans (hs : Scans cs ts rest) (hl : Leads ts fs) :
    (scan cs).parse = run (scan rest).stop (scan rest).tokens fs := by
  rw [Scan.parse, hs.scan_eq]
  exact hl.run_append _ _

theorem Snags.ne_script {e' : Error} (h : Snags e fs rest) : e ≠ .script e' := by
  rintro rfl
  cases h with
  | token hbad => cases hbad
  | behind _ hbad => cases hbad

theorem Snags.run_eq (h : Snags e fs rest) (hl : Leads ts fs) :
    run (scan rest).stop (scan rest).tokens fs = .error e := by
  cases h with
  | token hbad =>
    rw [scan_of_error (next?_of_malformed hbad)]
    rfl
  | @group b fs _ rest' o hnext hbehind =>
    rw [scan_of_some hnext]
    apply run_closer_empty
    cases o with
    | none => exact .inr (by rw [scan_of_none hbehind])
    | some q => exact .inl (by rw [scan_of_some hbehind]; simp)
  | behind hnext hbad =>
    rw [scan_of_some hnext, scan_of_error (next?_of_malformed hbad)]
    exact run_closer_empty_stop
  | stray hnext =>
    rw [scan_of_some hnext]
    cases hl
    rfl
  | last hnext =>
    rw [scan_of_none hnext]
    cases hl
    rfl

theorem read_of_trips {text : String} (h : Trips text e) : read text = .error e := by
  obtain ⟨ts, fs, rest, hs, hl, hsnag⟩ := h
  rw [read, Scan.read, parse_of_scans hs hl, hsnag.run_eq hl]
  rfl

def Reported {α : Type} (x : Except Fault α) : Prop :=
  (∃ a, x = .ok a) ∨ ∃ e, x = .error (.script e)

theorem Reported.map {α β : Type} {x : Except Fault α} (h : Reported x) (f : α → β) :
    Reported (x.map f) := by
  rcases h with ⟨a, rfl⟩ | ⟨e, rfl⟩
  · exact .inl ⟨f a, rfl⟩
  · exact .inr ⟨e, rfl⟩

theorem Reported.of_halts {b : Bracket} (hh : Halts b fs) (hl : Leads ts fs)
    (hnext : next? rest = .ok (some (.closer b, rest'))) :
    Reported (run (scan rest).stop (scan rest).tokens fs) ∨ ∃ e, Snags e fs rest := by
  cases hh with
  | top =>
    rw [scan_of_some hnext]
    exact .inl (.inl ⟨_, rfl⟩)
  | empty =>
    cases hbehind : next? rest' with
    | ok o => exact .inr ⟨_, .group hnext hbehind⟩
    | error e =>
      rcases next?_error hbehind with ⟨e, rfl⟩ | hbad
      · rw [scan_of_some hnext, scan_of_error hbehind, run_closer_empty_stop]
        exact .inl (.inr ⟨e, rfl⟩)
      · exact .inr ⟨e, .behind hnext hbad⟩
  | stray => exact .inr ⟨_, .stray hnext⟩

theorem Reported.of_end (hl : Leads ts fs) (hnext : next? rest = .ok none) :
    Reported (run (scan rest).stop (scan rest).tokens fs) ∨ ∃ e, Snags e fs rest := by
  rw [scan_of_none hnext]
  rcases hl.run_end with ⟨is, rfl⟩ | ⟨gs, rfl⟩ | hend
  · exact .inl (.inl ⟨_, rfl⟩)
  · exact .inr ⟨_, .last hnext⟩
  · exact .inl (.inr ⟨_, hend⟩)

theorem reported_or_snags (hs : Scans cs ts rest) (hl : Leads ts fs) :
    Reported (run (scan rest).stop (scan rest).tokens fs) ∨
      ∃ e ts' fs' rest', Scans cs ts' rest' ∧ Leads ts' fs' ∧ Snags e fs' rest' := by
  induction rest using scan.induct generalizing ts fs with
  | case1 rest e hnext =>
    rcases next?_error hnext with ⟨e, rfl⟩ | hbad
    · rw [scan_of_error hnext]
      exact .inl (.inr ⟨e, rfl⟩)
    · exact .inr ⟨e, ts, fs, rest, hs, hl, .token hbad⟩
  | case2 rest hnext =>
    exact (Reported.of_end hl hnext).imp_right fun hsnag => ⟨_, ts, fs, rest, hs, hl, hsnag.choose_spec⟩
  | case3 rest t rest' hnext ih =>
    rcases hl.step t with ⟨gs, hgs, hstep⟩ | ⟨b, rfl, hh⟩
    · rw [scan_of_some hnext, hstep]
      exact ih (hs.next hnext) hgs
    · refine (Reported.of_halts hh hl hnext).imp_right fun hsnag => ?_
      exact ⟨_, ts, fs, rest, hs, hl, hsnag.choose_spec⟩

/-- Reading a script ends well or with a message exactly if the reader gets to no snag. -/
theorem read_reported_iff (text : String) :
    ((∃ es, read text = .ok es) ∨ ∃ e, read text = .error (.script e)) ↔ ∀ e, ¬ Trips text e := by
  constructor
  · rintro (⟨es, hok⟩ | ⟨e', herror⟩) e htrips
    · rw [read_of_trips htrips] at hok
      cases hok
    · have hsame := (read_of_trips htrips).symm.trans herror
      obtain ⟨_, _, _, _, _, hsnag⟩ := htrips
      exact hsnag.ne_script (Except.error.inj hsame)
  · intro h
    rcases reported_or_snags .nil Leads.start with hrep | ⟨e, hsnag⟩
    · exact hrep.map Prod.fst
    · exact absurd hsnag (h e)

theorem read_unreported :
    read "\"\\" = .error .wrongKind ∧ read "1/0" = .error .divisionByZero ∧
      read "()" = .error .outOfRange := by
  have hzero : OverZero ['1', '/', '0'] :=
    ⟨[], ['1'], ['0'], 1, rfl, by simp, ⟨⟨by simp, by simp, rfl⟩, by decide⟩,
      ⟨by simp, by simp, rfl⟩, by decide⟩
  have hnumeral : ZeroNumeral ['1', '/', '0'] := ⟨_, [], [], rfl, hzero, .inl rfl, by simp⟩
  refine ⟨read_of_trips ⟨[], _, _, .nil, .start, .token (.literal .slash)⟩,
    read_of_trips ⟨[], _, _, .nil, .start, .token (.numeral hnumeral)⟩,
    read_of_trips ⟨[.opener .round], _, [')'], .next .nil rfl, .opened .start _, .group rfl rfl⟩⟩

end Script

end Jumpcut
