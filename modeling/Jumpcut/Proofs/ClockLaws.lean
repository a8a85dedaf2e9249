import Jumpcut.Subtitle
import Jumpcut.Proofs.DecimalLaws
import Jumpcut.Proofs.PatternLaws

namespace Jumpcut

open Exact Outcome Decimal List ClockTime Number Place Text CharSet

theorem Exact.sub_floor_bounds {v : Rat} {b : Nat} (hv : 0 ≤ v) (hb : 0 < b) :
    0 ≤ v - b * ⌊v / b⌋₊ ∧ v - b * ⌊v / b⌋₊ < b := by
  have hpos : (0 : Rat) < b := Nat.cast_pos.2 hb
  have hlo := Nat.floor_le (show 0 ≤ v / b by positivity)
  have hhi := Nat.lt_floor_add_one (v / b)
  rw [le_div_iff₀ hpos] at hlo
  rw [div_lt_iff₀ hpos] at hhi
  constructor <;> linarith

namespace ClockTime

theorem seconds_bounds {q : Rat} (hq : 0 ≤ q) : 0 ≤ q - 60 * ⌊q / 60⌋₊ ∧ q - 60 * ⌊q / 60⌋₊ < 60 :=
  sub_floor_bounds hq (by norm_num : 0 < 60)

theorem ofSeconds_frac {q : Rat} (hq : 0 ≤ q) :
    ∃ x, toFloat? (q - 60 * ⌊q / 60⌋₊) = some x ∧ ofSeconds (.frac q) =
      .ok ⟨(⌊q / 60⌋₊ / 60 : Nat), (⌊q / 60⌋₊ % 60 : Nat), x⟩ := by
  obtain ⟨hlo, hhi⟩ := seconds_bounds hq
  obtain ⟨x, hx, -⟩ := nearestFloat_ok (le_largest (q := q - 60 * ⌊q / 60⌋₊) (by
    rw [abs_of_nonneg hlo]
    linarith))
  refine ⟨x, ?_, ?_⟩
  · rw [nearestFloat] at hx
    split at hx
    · next hy =>
      cases hx
      exact hy
    · cases hx
  · have hminutes : divMod (.frac q) 60 =
        .ok (.int ⌊q / 60⌋₊, .frac (q - 60 * ⌊q / 60⌋₊)) := by
      have hfloor : (q / 60).floor = (⌊q / 60⌋₊ : Int) := by
        rw [Int.natCast_floor_eq_floor (show 0 ≤ q / 60 by positivity)]
        rfl
      change divMod.exactDivMod q 60 = _
      rw [divMod.exactDivMod, if_neg (by norm_num)]
      simp only [hfloor, Int.cast_natCast]
    have hhours : divMod (.int ⌊q / 60⌋₊) 60 =
        .ok (.int (⌊q / 60⌋₊ / 60 : Nat), .int (⌊q / 60⌋₊ % 60 : Nat)) := by
      change (if (60 : Int) = 0 then .error .divisionByZero else _) = _
      rw [if_neg (by decide), Int.fdiv_eq_ediv_of_nonneg _ (by decide),
        Int.fmod_eq_emod_of_nonneg _ (by decide)]
      rfl
    have hseconds : (frac (q - 60 * ⌊q / 60⌋₊)).toFloat = .ok x := hx
    rw [ofSeconds, hminutes, ok_bind]
    dsimp only
    rw [hhours, ok_bind, hseconds]
    rfl

theorem toList_toString_int (n : Nat) : (toString (n : Int)).toList = Nat.toDigits 10 n :=
  toList_toString n

theorem toList_twoDigits (n : Nat) :
    (twoDigits n).toList =
      List.replicate (2 - (Nat.toDigits 10 n).length) '0' ++ Nat.toDigits 10 n := by
  rw [twoDigits, toList_zeroPad, toList_toString_int]
  rw [toList_toString_int]
  exact fun c hc => (spells_toDigits n).digits c (mem_of_mem_head? hc)

theorem toList_twoDigits_of_lt {n : Nat} (hn : n < 100) :
    (twoDigits n).toList = [Nat.digitChar (n / 10), Nat.digitChar (n % 10)] := by
  rw [toList_twoDigits, Nat.toDigits_eq_if (by decide)]
  split
  · next hlt => rw [Nat.div_eq_of_lt hlt, Nat.mod_eq_of_lt hlt]; rfl
  · rw [Nat.toDigits_of_lt_base (by omega)]
    rfl

theorem spells_twoDigits (n : Nat) : Spells (twoDigits n).toList n := by
  rw [toList_twoDigits]
  exact (spells_toDigits n).zeros _

theorem spells_digitChar {n : Nat} (hn : n < 10) : Spells [Nat.digitChar n] n := by
  rw [← Nat.toDigits_of_lt_base hn]
  exact spells_toDigits n

theorem toList_secondsText_of_classify {places : Nat} (hplaces : 0 < places) {t : ClockTime}
    {m : Nat} {e : Int} (hclass : classify t.seconds = .finite false m e) :
    ∃ ds es, (t.secondsText places).toList = ds ++ '.' :: es ∧ ds ≠ [] ∧ es.length = places ∧
      Spells (ds ++ es) (fixedUnits places (scaled m e)) := by
  obtain ⟨ds, es, htext, hds, hes, hspells⟩ :=
    withPlaces_spells hplaces (fixedUnits places (scaled m e))
  have hfixed : fixed places t.seconds = withPlaces places (fixedUnits places (scaled m e)) := by
    rw [fixed, hclass]
    rfl
  rw [secondsText, hfixed, toList_zeroPad, htext]
  · refine ⟨List.replicate _ '0' ++ ds, es, (append_assoc _ _ _).symm, by simp [hds], hes, ?_⟩
    rw [append_assoc]
    exact hspells.zeros _
  · rw [htext, head?_append_of_ne_nil _ hds]
    exact fun c hc => hspells.digits c (mem_append_left _ (mem_of_mem_head? hc))

theorem toList_secondsText {places : Nat} (hplaces : 0 < places) {t : ClockTime} {r : Rat}
    (hr : 0 ≤ r) (ht : toFloat? r = some t.seconds) :
    ∃ ds es, (t.secondsText places).toList = ds ++ '.' :: es ∧ ds ≠ [] ∧ es.length = places ∧
      Spells (ds ++ es) (fixedUnits places (Exact.nearest r)) := by
  obtain ⟨m, e, hclass, hvalue⟩ := classify_of_toFloat? ht hr
  rw [← hvalue]
  exact toList_secondsText_of_classify hplaces hclass

end ClockTime

namespace SubtitleFormat

open Pattern

def AllSeconds (f : SubtitleFormat) (cs : List Char) : Prop :=
  cs ≠ [] ∧ ∀ c ∈ cs, c.isDigit ∨ c = f.point

variable {f : SubtitleFormat} {α : Type} {s : Place} {ds secs ms text hs es : List Char}
  {n minutes hours units : Nat} {tb : Rat}

theorem run_digits {rest : List Char} (hrest : s.rest = ds ++ ':' :: rest) (hds : Spells ds n)
    {k : Place → Option α} {r : α} (hk : k (s.forward ds) = some r) :
    run false (plus digit) s k = some r := by
  refine run_plus_one_of_some hrest hds.nonempty ?_ ?_ hk
  · intro c hc
    rw [has_digit]
    exact isDigit_of_isDigit (hds.digits c hc)
  · rintro c ⟨⟩
    decide

theorem run_seconds (hrest : s.rest = secs) (hsecs : f.AllSeconds secs) {k : Place → Option α}
    {r : α} (hk : k (s.forward secs) = some r) : run false f.secondsPattern s k = some r := by
  refine run_plus_one_of_some (hrest.trans (append_nil _).symm) hsecs.1 ?_ (by simp) hk
  intro c hc
  simp only [has, CharItem.has, CharItem.same, any_cons, any_nil, Bool.or_false,
    Bool.false_and, Bool.bne_false, Bool.or_eq_true, decide_eq_true_eq]
  exact (hsecs.2 c hc).imp_left isDigit_of_isDigit

def minutesPattern (f : SubtitleFormat) : Pattern :=
  .seq (group 2 (plus digit)) (.seq (lit ':') (group 3 f.secondsPattern))

theorem clockPattern_eq (f : SubtitleFormat) : f.clockPattern =
    .seq (group 1 (plus digit)) (.seq (.many true 0 (some 1) (lit ':')) f.minutesPattern) := rfl

def found (t : Place) : Option Found := some ⟨⟨0, t.pos⟩, t.groups⟩

theorem run_minutes (hrest : s.rest = ms ++ ':' :: secs) (hms : Spells ms minutes)
    (hsecs : f.AllSeconds secs) :
    run false f.minutesPattern s found = some ⟨⟨0, s.pos + ms.length + 1 + secs.length⟩,
      (3, ⟨s.pos + ms.length + 1, s.pos + ms.length + 1 + secs.length⟩) ::
        (2, ⟨s.pos, s.pos + ms.length⟩) :: s.groups⟩ := by
  simp only [minutesPattern, run_seq, run_group]
  refine run_digits hrest hms ?_
  have hcolon : (s.forward ms).rest = ':' :: secs := by
    rw [rest_forward, hrest, drop_left]
  rw [run_lit (by exact hcolon)]
  apply run_seconds (by simp [step, hrest]) hsecs
  simp [found, step]

theorem run_minutes_eq_none (hs : s.Within text) (hcolon : ':' ∉ s.rest) :
    run false f.minutesPattern s found = none := by
  rw [Option.eq_none_iff_forall_ne_some]
  intro m hm
  obtain ⟨t, ⟨u, hsu, v, ⟨c, cs, hrest, hc, -⟩, -⟩, -⟩ := run_leads hm
  obtain ⟨hu, hle⟩ := hsu.within hs
  rw [has_single, decide_eq_true_eq] at hc
  have hsuffix : u.rest = s.rest.drop (u.pos - s.pos) := by
    rw [hs, hu, drop_drop, Nat.add_sub_cancel' hle]
  apply hcolon
  rw [← hc]
  exact mem_of_mem_drop (hsuffix ▸ hrest ▸ mem_cons_self)

theorem matchFront_long (hhs : Spells hs hours) (hms : Spells ms minutes)
    (hsecs : f.AllSeconds secs) :
    f.clockPattern.matchFront false (hs ++ ':' :: (ms ++ ':' :: secs)) =
      some ⟨⟨0, hs.length + 1 + ms.length + 1 + secs.length⟩, [(3, ⟨hs.length + 1 + ms.length + 1,
        hs.length + 1 + ms.length + 1 + secs.length⟩),
        (2, ⟨hs.length + 1, hs.length + 1 + ms.length⟩), (1, ⟨0, hs.length⟩)]⟩ := by
  rw [matchFront, at?, clockPattern_eq, run_seq, run_group]
  refine run_digits rfl hhs ?_
  rw [run_seq, lit, run_optional_one, ← lit, run_lit (show _ = ':' :: (ms ++ ':' :: secs) by simp)]
  refine Option.or_eq_some_iff.2 (.inl ((run_minutes ?_ hms hsecs).trans ?_))
  · simp [step]
  · simp [step]

theorem matchFront_short {a b : Char} (ha : Spells [a] hours) (hb : Spells [b] minutes)
    (hsecs : f.AllSeconds secs) :
    f.clockPattern.matchFront false (a :: b :: ':' :: secs) =
      some ⟨⟨0, 3 + secs.length⟩, [(3, ⟨3, 3 + secs.length⟩), (2, ⟨1, 2⟩), (1, ⟨0, 1⟩)]⟩ := by
  have hcolon : ':' ∉ secs := by
    intro h
    rcases hsecs.2 _ h with h | h
    · cases h
    · cases f <;> cases h
  have ha' : a.isDigit := ha.digits a (.head _)
  have hb' : b.isDigit := hb.digits b (.head _)
  have hrest : ∀ c ∈ (':' :: secs).head?, ¬ has false ⟨false, [.digit]⟩ c := by
    rintro c ⟨⟩
    decide
  have htake : ([b] ++ ':' :: secs).takeWhile (has false ⟨false, [.digit]⟩) = [b] :=
    takeWhile_append hrest (by simpa [has_digit] using isDigit_of_isDigit hb')
  let hours : Pattern := .seq (.many true 0 (some 1) (lit ':')) f.minutesPattern
  -- With both digits as hours the colon would have to stand between minutes and seconds once more.
  have hboth : run false hours ⟨2, some b, ':' :: secs, [(1, ⟨0, 2⟩)]⟩ found = none := by
    have hcut : Within (a :: b :: ':' :: secs) ⟨3, some ':', secs, [(1, ⟨0, 2⟩)]⟩ := rfl
    have hplain : run false f.minutesPattern ⟨2, some b, ':' :: secs, [(1, ⟨0, 2⟩)]⟩ found = none := by
      rw [minutesPattern, run_seq, run_group, digit, run_plus_one _ rfl]
      exact if_neg (hrest ':' rfl)
    rw [run_seq, lit, run_optional_one, ← lit, run_lit rfl, hplain, Option.or_none]
    exact run_minutes_eq_none hcut hcolon
  have hone : run false hours ⟨1, some a, b :: ':' :: secs, [(1, ⟨0, 1⟩)]⟩ found =
      some ⟨⟨0, 3 + secs.length⟩, [(3, ⟨3, 3 + secs.length⟩), (2, ⟨1, 2⟩), (1, ⟨0, 1⟩)]⟩ := by
    rw [run_seq, lit, run_optional_one, run_one_cons _ rfl, has_single,
      decide_eq_false (ne_of_isDigit hb' rfl), if_neg Bool.false_ne_true, Option.none_or]
    exact run_minutes rfl hb hsecs
  rw [matchFront, at?, clockPattern_eq, run_seq, run_group, digit, run_plus_one _ rfl, has_digit,
    if_pos (isDigit_of_isDigit ha')]
  change farthest _ _ (([b] ++ ':' :: secs).takeWhile _) = _
  rw [htake]
  change (run false hours ⟨2, some b, ':' :: secs, [(1, ⟨0, 2⟩)]⟩ found).or
    (run false hours ⟨1, some a, b :: ':' :: secs, [(1, ⟨0, 1⟩)]⟩ found) = _
  rw [hboth, hone, Option.none_or]

theorem firstComma_append (h : ',' ∉ ds) (cs : List Char) :
    firstComma (ds ++ cs) = ds ++ firstComma cs := by
  induction ds with
  | nil => rfl
  | cons d ds ih =>
    rw [mem_cons, not_or] at h
    rw [cons_append, firstComma, ih h.2, cons_append]
    exact fun hd => h.1 hd.symm

theorem firstComma_point (hds : ',' ∉ ds) (hes : ',' ∉ es) :
    firstComma (ds ++ f.point :: es) = ds ++ '.' :: es := by
  have hrest : firstComma es = es := by
    have := firstComma_append hes []
    simpa [firstComma] using this
  rw [firstComma_append hds]
  cases f <;> simp [point, firstComma, hrest]

def ticks (tb : Rat) (hours minutes : Nat) (seconds : Float) : Except Fault Int := do
  let whole ← add (.int (hours * 3600 + minutes * 60)) (.float seconds)
  (← whole.mul (.frac tb)).round

theorem AllSeconds.of_spells (h : Spells (ds ++ es) n) : f.AllSeconds (ds ++ f.point :: es) := by
  refine ⟨by simp, fun c hc => ?_⟩
  rw [mem_append, mem_cons, or_left_comm, ← mem_append] at hc
  exact hc.symm.imp_left (h.digits c)

section

variable (hhs : Spells hs hours) (hhs' : hs.length ≤ digitLimit) (hms : Spells ms minutes)
  (hms' : ms.length ≤ digitLimit) (hsecs : Spells (ds ++ es) units) (hds : ds ≠ [])

include hhs hhs' hms hms' hsecs hds

theorem tickOf_of_match {m : Found} (hm : f.clockPattern.matchFront false text = some m)
    (htexts : m.groupText 1 text = String.ofList hs ∧ m.groupText 2 text = String.ofList ms ∧
      m.groupText 3 text = String.ofList (ds ++ f.point :: es)) :
    f.tickOf tb (String.ofList text) = ticks tb hours minutes (nearest false units (-es.length)) := by
  obtain ⟨h₁, h₂, h₃⟩ := htexts
  have hcomma : ',' ∉ ds ++ es := fun h => by cases hsecs.digits _ h
  rw [mem_append, not_or] at hcomma
  rw [tickOf, String.toList_ofList]
  simp only [hm, h₁, h₂, h₃, wholeNumber, hhs.int? hhs', hms.int? hms', ok_bind, String.toList_ofList,
    firstComma_point hcomma.1 hcomma.2, hsecs.float? hds]
  rfl

theorem tickOf_long :
    f.tickOf tb (String.ofList (hs ++ ':' :: (ms ++ ':' :: (ds ++ f.point :: es)))) =
      ticks tb hours minutes (nearest false units (-es.length)) := by
  refine tickOf_of_match hhs hhs' hms hms' hsecs hds (matchFront_long hhs hms (.of_spells hsecs))
    ⟨?_, ?_, ?_⟩
  · exact congrArg String.ofList (Span.of_middle [] hs _ rfl rfl (Nat.zero_add _).symm)
  · exact congrArg String.ofList (Span.of_middle (hs ++ [':']) ms (':' :: (ds ++ f.point :: es))
      (by simp) (by simp) (by simp))
  · exact congrArg String.ofList (Span.of_middle (hs ++ ':' :: (ms ++ [':'])) (ds ++ f.point :: es) []
      (by simp) (by simp; omega) (by simp; omega))

end

theorem tickOf_short {a b : Char} (ha : Spells [a] hours) (hb : Spells [b] minutes)
    (hsecs : Spells (ds ++ es) units) (hds : ds ≠ []) :
    f.tickOf tb (String.ofList (a :: b :: ':' :: (ds ++ f.point :: es))) =
      ticks tb hours minutes (nearest false units (-es.length)) := by
  have hlen : ∀ c : Char, [c].length ≤ digitLimit := fun c => by simp [digitLimit]
  refine tickOf_of_match ha (hlen a) hb (hlen b) hsecs hds
    (matchFront_short ha hb (.of_spells hsecs)) ⟨rfl, rfl, ?_⟩
  exact congrArg String.ofList (Span.of_middle [a, b, ':'] (ds ++ f.point :: es) [] (by simp) rfl rfl)

def places : SubtitleFormat → Nat
  | .ass => 2
  | _ => 3

def hoursText (f : SubtitleFormat) (hours : Nat) : String :=
  match f with
  | .ass => toString (hours : Int)
  | .webvtt | .movText => twoDigits hours

theorem hoursText_spells (hours : Nat) : Spells (f.hoursText hours).toList hours := by
  cases f with
  | ass =>
    rw [hoursText, toList_toString_int]
    exact spells_toDigits hours
  | webvtt | movText => exact spells_twoDigits hours

theorem length_hoursText_le (h : hours < 2 ^ 200) :
    (f.hoursText hours).toList.length ≤ digitLimit := by
  have hdigits : (Nat.toDigits 10 hours).length ≤ 200 :=
    (Nat.length_toDigits_le_iff (by decide) (by decide)).2
      (h.trans_le (Nat.pow_le_pow_left (by decide) 200))
  rw [digitLimit]
  cases f with
  | ass =>
    rw [hoursText, toList_toString_int]
    omega
  | webvtt | movText =>
    rw [hoursText, toList_twoDigits, length_append, length_replicate]
    omega

theorem toList_comma {s : String} (hs : s.toList = ds ++ '.' :: es) (hds : '.' ∉ ds ++ es) :
    (TimeFormat.comma s).toList = ds ++ ',' :: es := by
  have hmap {cs : List Char} (hcs : '.' ∉ cs) : cs.map (fun c => if c = '.' then ',' else c) = cs := by
    refine (map_congr_left fun c hc => if_neg ?_).trans (map_id' cs)
    rintro rfl
    exact hcs hc
  rw [mem_append, not_or] at hds
  rw [TimeFormat.comma, String.toList_ofList, hs, map_append, map_cons, hmap hds.1,
    hmap hds.2, if_pos rfl]

theorem toList_unsigned {x : Float}
    (hsecs : (secondsText f.places ⟨hours, minutes, x⟩).toList = ds ++ '.' :: es)
    (hspells : Spells (ds ++ es) n) :
    (f.timeFormat.unsigned ⟨hours, minutes, x⟩).toList =
      if f = .webvtt ∧ hours = 0 then
        (twoDigits minutes).toList ++ ':' :: (ds ++ f.point :: es)
      else (f.hoursText hours).toList ++ ':' ::
        ((twoDigits minutes).toList ++ ':' :: (ds ++ f.point :: es)) := by
  have hcomma : '.' ∉ ds ++ es := fun h => by cases hspells.digits _ h
  have hjoin (hs secs : String) (h : secs.toList = ds ++ f.point :: es) :
      (hs ++ ":" ++ twoDigits minutes ++ ":" ++ secs).toList =
        hs.toList ++ ':' :: ((twoDigits minutes).toList ++ ':' :: (ds ++ f.point :: es)) := by
    simp only [String.toList_append, h, append_assoc]
    rfl
  cases f with
  | ass =>
    rw [if_neg (by simp)]
    exact hjoin _ _ hsecs
  | webvtt =>
    by_cases hzero : hours = 0
    · rw [if_pos ⟨rfl, hzero⟩]
      change (if (hours : Int) = 0 then _ else _ : String).toList = _
      rw [if_pos (by omega)]
      simp only [String.toList_append, append_assoc]
      exact congrArg (_ ++ ':' :: ·) hsecs
    · rw [if_neg (by simp [hzero])]
      change (if (hours : Int) = 0 then _ else _ : String).toList = _
      rw [if_neg (by omega)]
      exact hjoin _ _ hsecs
  | movText =>
    rw [if_neg (by simp)]
    exact hjoin _ _ (toList_comma hsecs hcomma)

theorem text_frac {q : Rat} (hq : 0 ≤ q) :
    ∃ ds es units, f.timeFormat.text (.frac q) = .ok (String.ofList
        (if f = .webvtt ∧ ⌊q / 60⌋₊ / 60 = 0 then
          (twoDigits (⌊q / 60⌋₊ % 60 : Nat)).toList ++ ':' :: (ds ++ f.point :: es)
        else (f.hoursText (⌊q / 60⌋₊ / 60)).toList ++ ':' ::
          ((twoDigits (⌊q / 60⌋₊ % 60 : Nat)).toList ++ ':' :: (ds ++ f.point :: es)))) ∧
      ds ≠ [] ∧ es.length = f.places ∧ Spells (ds ++ es) units ∧
      |(units / 10 ^ f.places : Rat) - (q - 60 * ⌊q / 60⌋₊)| ≤
        1 / (2 * 10 ^ f.places) + 60 / 2 ^ 53 := by
  obtain ⟨x, hx, hclock⟩ := ofSeconds_frac hq
  obtain ⟨hlo, hhi⟩ := seconds_bounds hq
  have hplaces : 0 < f.places := by cases f <;> decide
  obtain ⟨ds, es, htext, hds, hes, hspells⟩ := toList_secondsText hplaces
    (t := ⟨(⌊q / 60⌋₊ / 60 : Nat), (⌊q / 60⌋₊ % 60 : Nat), x⟩) hlo hx
  refine ⟨ds, es, _, ?_, hds, hes, hspells, ?_⟩
  · have hsign : ¬ (frac q).lt 0 := by
      rw [lt_iff_of_toRat? rfl (toRat?_ofNat 0), not_lt]
      exact_mod_cast hq
    rw [TimeFormat.text, if_neg hsign, hclock, ok_bind, ← toList_unsigned htext hspells,
      String.ofList_toList]
    rfl
  · exact abs_decimal_sub_le f.places hlo hhi.le

/-- How a written time is read: if the hours are left out, the tens of the minutes are taken for
them. -/
theorem tickOf_text {q : Rat} (hq : 0 ≤ q) (hq' : q ≤ 2 ^ 200) (tb : Rat) :
    ∃ text d y, f.timeFormat.text (.frac q) = .ok text ∧
      0 ≤ d ∧ |d - (q - 60 * ⌊q / 60⌋₊)| ≤ 1 / (2 * 10 ^ f.places) + 60 / 2 ^ 53 ∧
      ofFloat? y = some (Exact.nearest d) ∧
      f.tickOf tb text = if f = .webvtt ∧ ⌊q / 60⌋₊ / 60 = 0 then
        ticks tb (⌊q / 60⌋₊ / 10) (⌊q / 60⌋₊ % 10) y
      else ticks tb (⌊q / 60⌋₊ / 60) (⌊q / 60⌋₊ % 60) y := by
  obtain ⟨ds, es, units, htext, hds, hes, hspells, hnear⟩ := text_frac (f := f) hq
  obtain ⟨hlo, hhi⟩ := seconds_bounds hq
  have hhours : ⌊q / 60⌋₊ / 60 < 2 ^ 200 := by
    have hfloor : ⌊q / 60⌋₊ < 2 ^ 200 := (Nat.floor_lt (by positivity)).2 (by push_cast; linarith)
    omega
  generalize ⌊q / 60⌋₊ = m at *
  have hplaces : f.places ≤ 3 := by cases f <;> decide
  have hunits : units ≤ 2 ^ 53 := by
    have hpow : (1 : Rat) ≤ 10 ^ f.places := one_le_pow₀ (by norm_num)
    have hpow' : (10 : Rat) ^ f.places ≤ 10 ^ 3 := pow_le_pow_right₀ (by norm_num) hplaces
    have hhalf : 1 / (2 * 10 ^ f.places : Rat) ≤ 1 / 2 := by
      rw [div_le_div_iff₀ (by positivity) (by norm_num)]
      linarith
    have hle : (units / 10 ^ f.places : Rat) ≤ 61 := by linarith [(abs_le.1 hnear).2]
    rw [div_le_iff₀ (by positivity)] at hle
    have : (units : Rat) ≤ (2 ^ 53 : Nat) := by
      push_cast
      linarith
    exact_mod_cast this
  have hy := ofFloat?_nearest hunits (hplaces.trans (by norm_num : 3 ≤ 300))
  refine ⟨_, _, _, htext, by positivity, hnear, hy, ?_⟩
  rw [← hes]
  split
  · next hshort =>
    rw [toList_twoDigits_of_lt (by omega), Nat.mod_eq_of_lt (by omega)]
    exact tickOf_short (spells_digitChar (by omega)) (spells_digitChar (by omega))
      hspells hds
  · have hms := toList_twoDigits_of_lt (show m % 60 < 100 by omega)
    refine tickOf_long (hoursText_spells _) (length_hoursText_le hhours)
      (spells_twoDigits _) ?_ hspells hds
    rw [hms, length_cons, length_singleton]
    decide

end SubtitleFormat

end Jumpcut
