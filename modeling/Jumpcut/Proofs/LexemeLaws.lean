import Jumpcut.Proofs.ScanLaws
import Jumpcut.Script.Eval

/-!
Where tokens end. What follows a token matters by its first character alone, and not at all if the token
has an end of its own. So a text that ends between tokens can be scanned on its own, and the blanks and
comments between two tokens can be replaced by others (`scan_append_newline`). A text can be written as a
literal (`next?_literal_iff`) and an exact number as its digits (`scan_numberToString`). Characters and
texts are shown in a form that can be scanned only if nothing in them is named or escaped
(`scan_display_iff`).
-/
namespace Jumpcut.Script

open Outcome Decimal Number Token
open List hiding next?

namespace Token

inductive Closes : List Char → Prop
  | quote {cs} : Closes ('"' :: cs)
  | plain {c cs} : c ≠ '"' → c ≠ '\\' → Closes cs → Closes (c :: cs)
  | escape {c cs} : Closes cs → Closes ('\\' :: c :: cs)

/-- What can stand behind a backslash in a literal, and what it stands for. -/
def escapes : List (Char × Char) := [('n', '\n'), ('t', '\t'), ('"', '"'), ('\\', '\\')]

/-- How a text can be written inside of a literal. -/
inductive Writes : List Char → List Char → Prop
  | nil : Writes [] []
  | plain {c s w} : c ≠ '"' → c ≠ '\\' → Writes s w → Writes (c :: s) (c :: w)
  | escape {e c s w} : (e, c) ∈ escapes → Writes s w → Writes (c :: s) ('\\' :: e :: w)

/-- Blanks and comments, each comment with the end of its line. -/
inductive Filler : List Char → Prop
  | nil : Filler []
  | blank {c cs} : isBlank c → Filler cs → Filler (c :: cs)
  | comment {cs ds} : '\n' ∉ cs → Filler ds → Filler (';' :: (cs ++ '\n' :: ds))

def Stops (cs : List Char) : Prop := ∀ c ∈ cs.head?, ¬ isPlain c

variable {c : Char} {b : Bool} {cs ds rest more xs : List Char} {t : Token}

theorem literal_escape {e : Char} (h : (e, c) ∈ escapes) (cs : List Char) :
    literal ('\\' :: e :: cs) = (literal cs).map fun r => (c :: r.1, r.2) := by
  simp only [escapes, mem_cons, Prod.mk.injEq, not_mem_nil, or_false] at h
  rcases h with ⟨rfl, rfl⟩ | ⟨rfl, rfl⟩ | ⟨rfl, rfl⟩ | ⟨rfl, rfl⟩ <;> rw [literal]

theorem literal_badEscape {e : Char} (h : ∀ c, (e, c) ∉ escapes) (cs : List Char) :
    literal ('\\' :: e :: cs) = .error (.script (.badEscape e)) := by
  have hne (c d : Char) (hmem : (d, c) ∈ escapes) : e ≠ d := fun heq => h c (heq ▸ hmem)
  rw [literal]
  · exact hne '\n' 'n' (by decide)
  · exact hne '\t' 't' (by decide)
  · exact hne '"' '"' (by decide)
  · exact hne '\\' '\\' (by decide)

theorem Writes.literal {s w : List Char} (h : Writes s w) (rest : List Char) :
    literal (w ++ '"' :: rest) = .ok (s, rest) := by
  induction h with
  | nil => rfl
  | plain hquote hslash _ ih =>
    rw [cons_append, literal_plain hquote hslash, ih]
    rfl
  | escape hmem _ ih =>
    rw [cons_append, cons_append, literal_escape hmem, ih]
    rfl

theorem Writes.closes {s w : List Char} (h : Writes s w) (rest : List Char) :
    Closes (w ++ '"' :: rest) := by
  induction h with
  | nil => exact .quote
  | plain hquote hslash _ ih => exact .plain hquote hslash ih
  | escape _ _ ih => exact .escape ih

theorem writes_self {q : List Char} (h : ∀ c ∈ q, c ≠ '"' ∧ c ≠ '\\') : Writes q q := by
  induction q with
  | nil => exact .nil
  | cons c q ih =>
    obtain ⟨hc, hq⟩ := forall_mem_cons.1 h
    exact .plain hc.1 hc.2 (ih hq)

theorem Closes.exists_writes (h : Closes cs) (hread : literal cs = .ok (ds, rest)) :
    ∃ w, Writes ds w ∧ cs = w ++ '"' :: rest := by
  induction h generalizing ds with
  | quote =>
    cases hread
    exact ⟨[], .nil, rfl⟩
  | @plain c cs hquote hslash _ ih =>
    rw [literal_plain hquote hslash, map_eq_ok] at hread
    obtain ⟨r, hr, heq⟩ := hread
    cases heq
    obtain ⟨w, hw, rfl⟩ := ih hr
    exact ⟨c :: w, .plain hquote hslash hw, rfl⟩
  | @escape e cs _ ih =>
    by_cases hmem : ∃ c, (e, c) ∈ escapes
    · obtain ⟨c, hmem⟩ := hmem
      rw [literal_escape hmem, map_eq_ok] at hread
      obtain ⟨r, hr, heq⟩ := hread
      cases heq
      obtain ⟨w, hw, rfl⟩ := ih hr
      exact ⟨'\\' :: e :: w, .escape hmem hw, rfl⟩
    · rw [literal_badEscape (not_exists.1 hmem)] at hread
      cases hread

theorem Closes.exists_front (h : Closes cs) (hread : literal cs = .ok (ds, rest)) :
    ∃ xs, cs = xs ++ rest ∧ ∀ more, literal (xs ++ more) = .ok (ds, more) := by
  obtain ⟨w, hw, rfl⟩ := h.exists_writes hread
  exact ⟨w ++ ['"'], by simp, fun more => by simpa using hw.literal more⟩

theorem closes_of_literal (h : literal cs = .ok (ds, rest)) (hrest : rest ≠ []) : Closes cs := by
  induction cs using literal.induct generalizing ds with
  | case1 =>
    cases h
    exact absurd rfl hrest
  | case2 cs => exact .quote
  | case3 => cases h
  | case4 cs ih | case5 cs ih | case6 cs ih | case7 cs ih =>
    rw [literal, map_eq_ok] at h
    obtain ⟨r, hr, heq⟩ := h
    cases heq
    exact .escape (ih hr)
  | case8 c cs => simp [literal] at h
  | case9 c cs hquote hlast hmore ih =>
    have hslash := ne_slash hlast hmore
    rw [literal_plain hquote hslash, map_eq_ok] at h
    obtain ⟨r, hr, heq⟩ := h
    cases heq
    exact .plain hquote hslash (ih hr)

theorem span_stops {p : Char → Bool} (hp : ∀ d, p d → isPlain d) (hmore : Stops more) :
    (xs ++ more).takeWhile p = xs.takeWhile p ∧ (xs ++ more).dropWhile p = xs.dropWhile p ++ more := by
  induction xs with
  | nil =>
    exact @span_append p [] more (by simp) fun d hd h => hmore d hd (hp d h)
  | cons x xs ih => by_cases hx : p x <;> simp [hx, ih]

theorem exists_front_of_plain {f : List Char → Except Fault (Token × List Char)}
    (hf : ∀ more, Stops more →
      f (cs.takeWhile isPlain ++ more) = (f (cs.takeWhile isPlain)).map fun r => (r.1, more))
    (h : f cs = .ok (t, rest)) :
    ∃ xs, cs = xs ++ rest ∧ ∀ more, (Stops rest → Stops more) → f (xs ++ more) = .ok (t, more) := by
  have hstop : Stops (cs.dropWhile isPlain) := by
    intro d hd
    have hnot := head?_dropWhile_not isPlain cs
    rw [hd] at hnot
    simpa using hnot
  have hself := hf _ hstop
  rw [takeWhile_append_dropWhile, h] at hself
  obtain ⟨r, hr, heq⟩ := map_eq_ok.1 hself.symm
  cases heq
  refine ⟨cs.takeWhile isPlain, takeWhile_append_dropWhile.symm, fun more hmore => ?_⟩
  rw [hf more (hmore hstop), hr]
  rfl

theorem isPlain_of_isNumeric (h : isNumeric c) : isPlain c := (plain_of_isNumeric h).1.1

theorem startsNumeral_append (hmore : Stops more) :
    StartsNumeral c (xs ++ more) ↔ StartsNumeral c xs := by
  cases xs with
  | cons x xs => rfl
  | nil =>
    have hhead : more.head?.any startsNumber = false := by
      cases more with
      | nil => rfl
      | cons d ds =>
        by_contra hd
        have hnumber : startsNumber d := by simpa using hd
        exact hmore d rfl (isPlain_of_isNumeric (isNumeric_of_startsNumber hnumber))
    simp [StartsNumeral, hhead]

theorem startingWith_mark (hquote : c ≠ '"') (hbracket : bracket? c = none)
    (hnumeral : ¬ StartsNumeral c cs) : startingWith c cs =
      if c = '#' then hash cs else if c = '\'' then quote cs else word c cs := by
  rw [startingWith, if_neg hquote, hbracket]
  dsimp only
  rw [if_neg fun h => hnumeral (.inl h), if_neg fun h => hnumeral (.inr h)]

section

variable (hxs : ∀ d ∈ xs, isPlain d) (hmore : Stops more)

include hxs hmore

theorem word_append : word c (xs ++ more) = (word c xs).map fun r => (r.1, more) := by
  obtain ⟨htake, hdrop⟩ := span_append hxs hmore
  simp only [word, htake, hdrop, takeWhile_eq_self_iff.2 hxs]
  split_ifs <;> rfl

theorem numeral_append : numeral c (xs ++ more) = (numeral c xs).map fun r => (r.1, more) := by
  obtain ⟨hbody, hafter⟩ := @span_stops more xs isNumeric (fun _ => isPlain_of_isNumeric) hmore
  have hunit : ∀ d ∈ xs.dropWhile isNumeric, isPlain d :=
    fun d hd => hxs d ((dropWhile_sublist _).subset hd)
  obtain ⟨htake, hdrop⟩ := span_append hunit hmore
  simp only [numeral, hbody, hafter, htake, hdrop, takeWhile_eq_self_iff.2 hunit]
  cases ofNumeral _ _ <;> rfl

theorem startingWith_append (hquote : c ≠ '"') (hbracket : bracket? c = none) (hhash : c ≠ '#')
    (hlist : c ≠ '\'') :
    startingWith c (xs ++ more) = (startingWith c xs).map fun r => (r.1, more) := by
  by_cases hstart : StartsNumeral c xs
  · rw [startingWith_numeral hstart, startingWith_numeral ((startsNumeral_append hmore).2 hstart),
      numeral_append hxs hmore]
  · have hstart' := mt (startsNumeral_append hmore).1 hstart
    simp only [startingWith_mark hquote hbracket hstart, startingWith_mark hquote hbracket hstart',
      if_neg hhash, if_neg hlist, word_append hxs hmore]

theorem hash_append (hslash : '\\' ∉ xs.head?) :
    hash (xs ++ more) = (hash xs).map fun r => (r.1, more) := by
  have hword {ys : List Char} (hys : '\\' ∉ ys.head?) : hash ys =
      if String.ofList (ys.takeWhile isPlain) = "t" ∨ String.ofList (ys.takeWhile isPlain) = "true" then
        .ok (.bool true, ys.dropWhile isPlain)
      else if String.ofList (ys.takeWhile isPlain) = "f" ∨
          String.ofList (ys.takeWhile isPlain) = "false" then .ok (.bool false, ys.dropWhile isPlain)
      else .error (.script (.unknownHash (String.ofList (ys.takeWhile isPlain)))) := by
    rw [hash.eq_def]
    split
    · simp at hys
    · simp at hys
    · rfl
  have hmore' : '\\' ∉ (xs ++ more).head? := by
    cases xs with
    | cons x xs => exact hslash
    | nil => exact fun h => hmore _ h (by decide)
  obtain ⟨htake, hdrop⟩ := span_append hxs hmore
  rw [hword hmore', hword hslash, htake, hdrop, takeWhile_eq_self_iff.2 hxs]
  split_ifs <;> rfl

end

theorem startingWith_hash (cs : List Char) : startingWith '#' cs = hash cs :=
  startingWith_mark (by decide) rfl (by simp [StartsNumeral, startsNumber])

theorem startingWith_list (cs : List Char) : startingWith '\'' cs = quote cs :=
  startingWith_mark (by decide) rfl (by simp [StartsNumeral, startsNumber])

theorem startingWith_exists_front (h : startingWith c cs = .ok (t, rest))
    (hclosed : c = '"' → Closes cs) :
    ∃ xs, cs = xs ++ rest ∧
      ∀ more, (Stops rest → Stops more) → startingWith c (xs ++ more) = .ok (t, more) := by
  have hplain : ∀ d ∈ cs.takeWhile isPlain, isPlain d := fun d hd => mem_takeWhile_imp hd
  by_cases hquote : c = '"'
  · have hopen (ds : List Char) : startingWith c ds =
        (literal ds).map fun r => (.str (String.ofList r.1), r.2) := by
      rw [startingWith, if_pos hquote]
    rw [hopen, map_eq_ok] at h
    obtain ⟨r, hr, heq⟩ := h
    cases heq
    obtain ⟨xs, hcs, hxs⟩ := (hclosed hquote).exists_front hr
    refine ⟨xs, hcs, fun more _ => ?_⟩
    rw [hopen, hxs]
    rfl
  cases hbracket : bracket? c with
  | some u =>
    have hsingle (ds : List Char) : startingWith c ds = .ok (u, ds) := by
      rw [startingWith, if_neg hquote, hbracket]
    rw [hsingle] at h
    cases h
    exact ⟨[], rfl, fun more _ => hsingle more⟩
  | none =>
    by_cases hhash : c = '#'
    · subst hhash
      rw [startingWith_hash] at h
      simp only [startingWith_hash]
      by_cases hslash : '\\' ∈ cs.head?
      · obtain ⟨ds, rfl⟩ := head?_eq_some_iff.1 hslash
        cases ds with
        | nil => cases h
        | cons d ds =>
          cases h
          exact ⟨['\\', d], rfl, fun more _ => rfl⟩
      · refine exists_front_of_plain (fun more hmore => hash_append hplain hmore ?_) h
        rw [head?_takeWhile]
        exact fun hmem => hslash (Option.mem_filter_iff.1 hmem).1
    by_cases hlist : c = '\''
    · subst hlist
      rw [startingWith_list, quote.eq_def] at h
      simp only [startingWith_list]
      split at h
      · cases h
        exact ⟨['(', ')'], rfl, fun more _ => rfl⟩
      · cases h
      · cases h
    exact exists_front_of_plain
      (fun more hmore => startingWith_append hplain hmore hquote hbracket hhash hlist) h

theorem skip_exists_front (h : skip b cs = c :: ds) :
    ∃ xs, cs = xs ++ c :: ds ∧ ∀ more, skip b (xs ++ c :: more) = c :: more := by
  induction cs generalizing b with
  | nil => cases b <;> simp [skip] at h
  | cons d cs ih =>
    have hstep (b' : Bool) (hskip : ∀ es, skip b (d :: es) = skip b' es) :
        ∃ xs, d :: cs = xs ++ c :: ds ∧ ∀ more, skip b (xs ++ c :: more) = c :: more := by
      rw [hskip] at h
      obtain ⟨xs, rfl, hxs⟩ := ih h
      exact ⟨d :: xs, rfl, fun more => (hskip _).trans (hxs more)⟩
    cases b with
    | true =>
      by_cases hline : d = '\n'
      · exact hstep false fun es => by rw [skip, if_pos hline]
      · exact hstep true fun es => by rw [skip, if_neg hline]
    | false =>
      by_cases hblank : isBlank d
      · exact hstep false fun es => by rw [skip, if_pos hblank]
      by_cases hcomment : d = ';'
      · exact hstep true fun es => by rw [skip, if_neg hblank, if_pos hcomment]
      have hkeep (es : List Char) : skip false (d :: es) = d :: es := by
        rw [skip, if_neg hblank, if_neg hcomment]
      rw [hkeep] at h
      cases h
      exact ⟨[], rfl, hkeep⟩

theorem next?_exists_front (h : next? cs = .ok (some (t, rest)))
    (hclosed : rest = [] → ∀ ds, skip false cs = '"' :: ds → Closes ds) :
    ∃ xs, cs = xs ++ rest ∧ xs ≠ [] ∧
      ∀ more, (Stops rest → Stops more) → next? (xs ++ more) = .ok (some (t, more)) := by
  rw [next?] at h
  split at h
  · cases h
  · next c ds hskip =>
    obtain ⟨r, hr, heq⟩ := map_eq_ok.1 h
    cases heq
    have hcloses (hc : c = '"') : Closes ds := by
      subst hc
      by_cases hrest : rest = []
      · exact hclosed hrest ds hskip
      · rw [startingWith, if_pos rfl, map_eq_ok] at hr
        obtain ⟨q, hq, heq⟩ := hr
        cases heq
        exact closes_of_literal hq hrest
    obtain ⟨front, rfl, hfront⟩ := skip_exists_front hskip
    obtain ⟨xs, rfl, hxs⟩ := startingWith_exists_front hr hcloses
    refine ⟨front ++ c :: xs, by simp, by simp, fun more hmore => ?_⟩
    rw [next?, append_assoc, cons_append, hfront]
    dsimp only
    rw [hxs more hmore]
    rfl

theorem skip_comment (h : '\n' ∉ cs) : skip true (cs ++ '\n' :: ds) = skip false ds := by
  induction cs with
  | nil => rfl
  | cons c cs ih =>
    rw [mem_cons, not_or] at h
    rw [cons_append, skip, if_neg (Ne.symm h.1), ih h.2]

theorem skip_append_newline (h : skip b cs = []) : skip b (cs ++ '\n' :: ds) = skip false ds := by
  induction cs generalizing b with
  | nil => cases b <;> rfl
  | cons c cs ih =>
    rw [cons_append]
    cases b <;> rw [skip] at h ⊢ <;> split_ifs at h ⊢ <;> exact ih h

theorem Filler.skip_append (h : Filler xs) (cs : List Char) :
    skip false (xs ++ cs) = skip false cs := by
  induction h with
  | nil => rfl
  | blank hblank _ ih => rw [cons_append, skip, if_pos hblank, ih]
  | comment hline _ ih =>
    rw [cons_append, skip, if_neg (by decide), if_pos rfl, append_assoc, cons_append,
      skip_comment hline, ih]

theorem Filler.stops (h : Filler xs) (hne : xs ≠ []) (cs : List Char) : Stops (xs ++ cs) := by
  cases h with
  | nil => exact absurd rfl hne
  | blank hblank _ => simp [Stops, isPlain, hblank]
  | comment _ _ => simp [Stops, isPlain]

end Token

open Token

variable {c : Char} {a cs rest more : List Char} {t : Token} {ts : List Token}

/-- Every text literal that is opened in a text has its closing quote there. -/
def LiteralsClosed (text : List Char) : Prop :=
  ∀ ts rest cs, Scans text ts rest → skip false rest = '"' :: cs → Closes cs

theorem Scans.exists_front {text : List Char} (h : Scans text ts rest)
    (hclosed : rest = [] → LiteralsClosed text) :
    ∃ front, text = front ++ rest ∧
      ∀ more, (Stops rest → Stops more) → Scans (front ++ more) ts more := by
  induction h with
  | nil => exact ⟨[], rfl, fun more _ => .nil⟩
  | @next ts rest t rest' hscans hnext ih =>
    have hne : rest ≠ [] := by
      rintro rfl
      cases hnext
    obtain ⟨xs, rfl, hxs, hmore⟩ := next?_exists_front hnext fun hrest cs hskip =>
      hclosed hrest _ _ _ hscans hskip
    obtain ⟨front, rfl, hfront⟩ := ih fun hnil => absurd hnil hne
    refine ⟨front ++ xs, by simp, fun more hstop => ?_⟩
    rw [append_assoc]
    refine (hfront (xs ++ more) ?_).next (hmore more hstop)
    obtain ⟨x, xs, rfl⟩ := exists_cons_of_ne_nil hxs
    exact id

theorem Scans.cons (h : next? cs = .ok (some (t, rest))) (hs : Scans rest ts more) :
    Scans cs (t :: ts) more := by
  induction hs with
  | nil => exact Scans.nil.next h
  | next _ hnext ih => exact ih.next hnext

theorem exists_scans (h : (scan cs).stop = none) :
    ∃ rest, Scans cs (scan cs).tokens rest ∧ next? rest = .ok none := by
  induction cs using scan.induct with
  | case1 cs e hnext =>
    rw [scan_of_error hnext] at h
    cases h
  | case2 cs hnext =>
    rw [scan_of_none hnext]
    exact ⟨cs, .nil, hnext⟩
  | case3 cs t rest hnext ih =>
    rw [scan_of_some hnext] at h ⊢
    obtain ⟨rest', hscans, hend⟩ := ih h
    exact ⟨rest', .cons hnext hscans, hend⟩

theorem scan_congr {cs ds : List Char} (h : skip false cs = skip false ds) : scan cs = scan ds := by
  have hnext : next? cs = next? ds := by rw [next?, next?, h]
  cases hds : next? ds with
  | error e => rw [scan_of_error hds, scan_of_error (hnext.trans hds)]
  | ok o =>
    cases o with
    | none => rw [scan_of_none hds, scan_of_none (hnext.trans hds)]
    | some r => rw [scan_of_some hds, scan_of_some (hnext.trans hds)]

theorem skip_of_next?_none (h : next? cs = .ok none) : skip false cs = [] := by
  rw [next?] at h
  split at h
  · assumption
  · next c ds hskip =>
    obtain ⟨r, -, heq⟩ := map_eq_ok.1 h
    cases heq

/-- A text whose literals are closed has the same tokens before any further lines. The blanks and
comments between a token and what follows it can be replaced by any others. -/
theorem scan_append_newline :
    (∀ a b, (scan a).stop = none → LiteralsClosed a →
      scan (a ++ '\n' :: b) = ⟨(scan a).tokens ++ (scan b).tokens, (scan b).stop⟩) ∧
    ∀ front gap gap' rest ts, Scans (front ++ (gap ++ rest)) ts (gap ++ rest) → Filler gap →
      Filler gap' → gap' ≠ [] → rest ≠ [] →
      read (String.ofList (front ++ (gap' ++ rest))) = read (String.ofList (front ++ (gap ++ rest))) := by
  constructor
  · intro a b h hclosed
    obtain ⟨rest, hscans, hend⟩ := exists_scans h
    have hskip := skip_of_next?_none hend
    obtain ⟨front, hfront, hmore⟩ := hscans.exists_front fun _ => hclosed
    have hstops : Stops rest → Stops (rest ++ '\n' :: b) := by
      cases rest with
      | nil => simp [Stops, isPlain, isBlank]
      | cons c cs => exact id
    rw [hfront, List.append_assoc, (hmore _ hstops).scan_eq, ← hfront,
      scan_congr (skip_append_newline hskip)]
  · intro front gap gap' rest ts hscans hgap hgap' hne hrest
    obtain ⟨front', hfront, hmore⟩ :=
      hscans.exists_front fun hnil => absurd (List.append_eq_nil_iff.1 hnil).2 hrest
    obtain rfl := List.append_cancel_right hfront
    have hscans' := hmore (gap' ++ rest) fun _ => hgap'.stops hne rest
    rw [read, read, String.toList_ofList, String.toList_ofList, hscans'.scan_eq, hscans.scan_eq,
      scan_congr (hgap'.skip_append rest), scan_congr (hgap.skip_append rest)]

theorem Scans.front (h : Scans cs ts rest) :
    rest = cs ∨ ∃ t us mid, next? cs = .ok (some (t, mid)) ∧ Scans mid us rest := by
  induction h with
  | nil => exact .inl rfl
  | next _ hnext ih =>
    rcases ih with rfl | ⟨t, us, mid, hfirst, hmid⟩
    · exact .inr ⟨_, [], _, hnext, .nil⟩
    · exact .inr ⟨t, _, mid, hfirst, hmid.next hnext⟩

theorem literalsClosed_of_next (hfirst : ∀ ds, skip false cs = '"' :: ds → Closes ds)
    (hrest : ∀ t rest, next? cs = .ok (some (t, rest)) → LiteralsClosed rest) :
    LiteralsClosed cs := by
  intro ts rest ds hscans hskip
  rcases hscans.front with rfl | ⟨t, us, mid, hnext, hmid⟩
  · exact hfirst ds hskip
  · exact hrest t mid hnext us rest ds hmid hskip

theorem scan_append_newline_note :
    scan ("\"x\";".toList ++ '\n' :: "b".toList) =
        ⟨(scan "\"x\";".toList).tokens ++ (scan "b".toList).tokens, (scan "b".toList).stop⟩ ∧
      read "(;a\nb" = read "(b" := by
  refine ⟨scan_append_newline.1 _ _ (by decide +kernel) ?_, ?_⟩
  · refine literalsClosed_of_next (fun ds h => ?_) fun t rest h => ?_
    · obtain rfl : ['x', '"', ';'] = ds := (List.cons.inj h).2
      exact .plain (by decide) (by decide) .quote
    · obtain rfl : [';'] = rest := congrArg Prod.snd (Option.some.inj (Except.ok.inj h))
      exact literalsClosed_of_next (by simp [skip, isBlank]) (by simp [next?, skip, isBlank])
  · exact scan_append_newline.2 ['('] [] [';', 'a', '\n'] ['b'] [.opener .round] (.next .nil rfl) .nil
      (@Filler.comment ['a'] [] (by decide) .nil) (by simp) (by simp)

theorem tail_eq_append {d : Char} {ds r ys zs : List Char} (hys : ys ≠ [])
    (h : d :: ds = r ++ (ys ++ zs)) : ∃ u, ds = u ++ zs ∧ u.length + 1 = r.length + ys.length := by
  rw [← append_assoc] at h
  cases hfront : r ++ ys with
  | nil => exact absurd (append_eq_nil_iff.1 hfront).2 hys
  | cons x u =>
    rw [hfront] at h
    obtain ⟨-, rfl⟩ := List.cons.inj h
    refine ⟨u, rfl, ?_⟩
    rw [← length_append, hfront, length_cons]

theorem plain_of_literal {q r : List Char} (h : literal (q ++ ['"', '\n']) = .ok (r ++ q, rest)) :
    r = [] ∧ ∀ c ∈ q, c ≠ '"' ∧ c ≠ '\\' := by
  induction q using literal.induct generalizing r with
  | case1 =>
    obtain ⟨hr, -⟩ := Prod.mk.inj (Except.ok.inj h)
    simpa using hr.symm
  | case2 cs =>
    obtain ⟨hr, -⟩ := Prod.mk.inj (Except.ok.inj h)
    simp at hr
  | case3 =>
    obtain ⟨hr, -⟩ := Prod.mk.inj (Except.ok.inj h)
    have := congrArg List.getLast? hr
    simp at this
  | case4 cs ih | case5 cs ih | case6 cs ih | case7 cs ih =>
    rw [cons_append, cons_append, literal, map_eq_ok] at h
    obtain ⟨⟨ds, rest'⟩, hread, heq⟩ := h
    obtain ⟨hds, rfl⟩ := Prod.mk.inj heq
    obtain ⟨u, rfl, hlen⟩ := @tail_eq_append _ ds r ['\\', _] cs (by simp) hds
    obtain ⟨rfl, -⟩ := ih hread
    simp at hlen
  | case8 c cs => simp [literal] at h
  | case9 c cs hquote hlast hmore ih =>
    have hslash := ne_slash hlast hmore
    rw [cons_append, literal_plain hquote hslash, map_eq_ok] at h
    obtain ⟨⟨ds, rest'⟩, hread, heq⟩ := h
    obtain ⟨hds, rfl⟩ := Prod.mk.inj heq
    obtain ⟨u, rfl, hlen⟩ := @tail_eq_append _ ds r [c] cs (by simp) hds
    obtain ⟨rfl, hcs⟩ := ih hread
    refine ⟨eq_nil_of_length_eq_zero (by simpa using hlen.symm), ?_⟩
    simpa using ⟨⟨hquote, hslash⟩, hcs⟩

theorem next?_quote (cs : List Char) : next? ('"' :: cs) =
    ((literal cs).map fun r => (str (String.ofList r.1), r.2)).map some := by
  rw [next?, skip, if_neg (by decide), if_neg (by decide)]
  dsimp only
  rw [startingWith, if_pos rfl]

/-- A text with a backslash before each quote and each backslash; newlines and tabs may be named. -/
def escaped (named : Bool) (s : List Char) : List Char :=
  s.flatMap fun c =>
    if c = '"' ∨ c = '\\' then ['\\', c]
    else if named ∧ c = '\n' then ['\\', 'n']
    else if named ∧ c = '\t' then ['\\', 't']
    else [c]

theorem writes_escaped (named : Bool) (s : List Char) : Writes s (escaped named s) := by
  induction s with
  | nil => exact .nil
  | cons c s ih =>
    have hmem : (c = '"' ∨ c = '\\') → (c, c) ∈ escapes := by
      rintro (rfl | rfl) <;> simp [escapes]
    rw [escaped, flatMap_cons]
    split_ifs with hself hline htab
    · exact .escape (hmem hself) ih
    · obtain ⟨-, rfl⟩ := hline
      exact .escape (by simp [escapes]) ih
    · obtain ⟨-, rfl⟩ := htab
      exact .escape (by simp [escapes]) ih
    · exact .plain (fun h => hself (.inl h)) (fun h => hself (.inr h)) ih

/-- A literal with its closing quote is read as a text, up to what follows it, exactly if the text is
written in it. Every text can be written so. -/
theorem next?_literal_iff (s : String) (rest : List Char) :
    (∀ named, Writes s.toList (escaped named s.toList)) ∧
    ∀ cs, (∃ w, Writes s.toList w ∧ cs = w ++ '"' :: rest) ↔
      Closes cs ∧ next? ('"' :: cs) = .ok (some (.str s, rest)) := by
  refine ⟨fun named => writes_escaped named _, fun cs => ⟨?_, ?_⟩⟩
  · rintro ⟨w, hw, rfl⟩
    refine ⟨hw.closes rest, ?_⟩
    rw [next?_quote, hw.literal]
    simp [Except.map]
  · rintro ⟨hcloses, hnext⟩
    rw [next?_quote, map_eq_ok] at hnext
    obtain ⟨r, hr, heq⟩ := hnext
    obtain ⟨q, hread, rfl⟩ := map_eq_ok.1 hr
    obtain ⟨hs, rfl⟩ : String.ofList q.1 = s ∧ q.2 = rest := by simpa using heq
    rw [← hs, String.toList_ofList]
    exact hcloses.exists_writes hread

theorem next?_char (c : Char) (cs : List Char) :
    next? ('#' :: '\\' :: c :: cs) = .ok (some (.char c, cs)) := by
  rw [next?, skip, if_neg (by decide), if_neg (by decide)]
  dsimp only
  rw [startingWith_hash]
  rfl

theorem scan_newline : scan ['\n'] = ⟨[], none⟩ := scan_of_none rfl

theorem scan_quoted_iff (s : String) :
    scan ('"' :: (s.toList ++ ['"', '\n'])) = ⟨[.str s], none⟩ ↔ '"' ∉ s.toList ∧ '\\' ∉ s.toList := by
  have hnext := next?_quote (s.toList ++ ['"', '\n'])
  constructor
  · intro h
    cases hread : literal (s.toList ++ ['"', '\n']) with
    | error e =>
      rw [hread] at hnext
      rw [scan_of_error hnext] at h
      cases h
    | ok r =>
      rw [hread] at hnext
      rw [scan_of_some hnext] at h
      obtain ⟨htoken, -⟩ := List.cons.inj (congrArg Scan.tokens h)
      have hr : r.1 = s.toList := by rw [← str.inj htoken, String.toList_ofList]
      obtain ⟨-, hplain⟩ := @plain_of_literal r.2 s.toList [] (by rw [hread, nil_append, ← hr])
      exact ⟨fun hmem => (hplain _ hmem).1 rfl, fun hmem => (hplain _ hmem).2 rfl⟩
  · rintro ⟨hquote, hslash⟩
    have hwrites : Writes s.toList s.toList :=
      writes_self fun c hc => ⟨fun h => hquote (h ▸ hc), fun h => hslash (h ▸ hc)⟩
    rw [hwrites.literal] at hnext
    rw [scan_of_some hnext, scan_newline, String.ofList_toList]

theorem scan_charText_iff (c : Char) :
    scan (Value.charText c ++ "\n").toList = ⟨[.char c], none⟩ ↔ c ∉ [' ', '\n', '\t'] := by
  by_cases hname : c ∈ [' ', '\n', '\t']
  · obtain ⟨d, cs, hshown, hne⟩ :
        ∃ d cs, (Value.charText c ++ "\n").toList = '#' :: '\\' :: d :: cs ∧ d ≠ c := by
      simp only [mem_cons, not_mem_nil, or_false] at hname
      rcases hname with rfl | rfl | rfl
      · exact ⟨'s', "pace\n".toList, rfl, by decide⟩
      · exact ⟨'n', "ewline\n".toList, rfl, by decide⟩
      · exact ⟨'t', "ab\n".toList, rfl, by decide⟩
    rw [hshown, scan_of_some (next?_char d cs)]
    constructor
    · intro h
      obtain ⟨htoken, -⟩ := List.cons.inj (congrArg Scan.tokens h)
      exact absurd (char.inj htoken) hne
    · exact fun h => absurd hname h
  · have hshown : (Value.charText c ++ "\n").toList = ['#', '\\', c, '\n'] := by
      simp only [mem_cons, not_mem_nil, or_false, not_or] at hname
      rw [Value.charText, if_neg hname.1, if_neg hname.2.1, if_neg hname.2.2]
      simp
    rw [hshown, scan_of_some (next?_char c _), scan_newline]
    exact ⟨fun _ => hname, fun _ => rfl⟩

/-- A character reads back as it is shown if it is not one of the three that have a name, and a text
if it has neither a quote nor a backslash. -/
theorem scan_display_iff (c : Char) (s : String) :
    (∃ shown, (Value.char c).display = .ok shown ∧
      (scan shown.toList = ⟨[.char c], none⟩ ↔ c ∉ [' ', '\n', '\t'])) ∧
    ∃ shown, (Value.str s).display = .ok shown ∧
      (scan shown.toList = ⟨[.str s], none⟩ ↔ '"' ∉ s.toList ∧ '\\' ∉ s.toList) := by
  refine ⟨⟨_, rfl, scan_charText_iff c⟩, _, rfl, ?_⟩
  rw [← scan_quoted_iff]
  simp

theorem scan_display_space :
    ((Value.char ' ').display = .ok "#\\space\n" ∧
      scan "#\\space\n".toList = ⟨[.char 's', .ident "pace"], none⟩) ∧
    (Value.str "\"").display = .ok "\"\"\"\n" ∧
      scan "\"\"\"\n".toList = ⟨[.str "", .str "\n"], none⟩ := by
  refine ⟨⟨rfl, ?_⟩, rfl, ?_⟩
  · rw [@scan_of_some _ "pace\n".toList (.char 's') rfl, @scan_of_some _ ['\n'] (.ident "pace") rfl,
      scan_newline]
  · rw [@scan_of_some _ ['"', '\n'] (.str "") rfl, @scan_of_some _ [] (.str "\n") rfl, scan_of_none rfl]

theorem next?_numeral (hstart : StartsNumeral c cs) (hcs : ∀ d ∈ cs, isNumeric d)
    (h : ofNumeral (String.ofList (c :: cs)) "" = .ok t) : next? (c :: cs) = .ok (some (t, [])) := by
  have hplain := isPlain_of_isNumeric hstart.isNumeric
  simp only [isPlain, Bool.and_eq_true, Bool.not_eq_true'] at hplain
  have hcomment : c ≠ ';' := by
    rintro rfl
    simp at hplain
  rw [next?, skip, if_neg (by simp [hplain.1]), if_neg hcomment]
  dsimp only
  rw [startingWith_numeral hstart, numeral, takeWhile_eq_self_iff.2 hcs,
    dropWhile_eq_nil_iff.2 hcs]
  change Except.map some (Except.map _ (ofNumeral _ "")) = _
  rw [h]
  rfl

theorem scan_signed {num : List Char} (neg : Bool) (hne : num ≠ []) (hnum : ∀ c ∈ num, c.isDigit)
    (hrest : ∀ c ∈ rest, isNumeric c)
    (h : ofNumeral (String.ofList ((if neg then ['-'] else []) ++ (num ++ rest))) "" = .ok t) :
    scan ((if neg then ['-'] else []) ++ (num ++ rest)) = ⟨[t], none⟩ := by
  have hsgn : (if neg then ['-'] else []) ∈ [[], ['+'], ['-']] := by cases neg <;> simp
  have hnumeric : ∀ c ∈ (if neg then ['-'] else []) ++ (num ++ rest), isNumeric c := by
    intro c hc
    rcases mem_append.1 hc with hc | hc
    · cases neg with
      | false => cases hc
      | true =>
        rw [mem_singleton.1 hc]
        rfl
    · rcases mem_append.1 hc with hc | hc
      · exact isNumeric_of_isDigit (hnum c hc)
      · exact hrest c hc
  obtain ⟨c, cs, hcs, hstart⟩ := exists_startsNumeral hsgn hne hnum rest []
  rw [hcs] at h hnumeric ⊢
  rw [append_nil] at hstart
  rw [scan_of_some (next?_numeral hstart (fun d hd => hnumeric d (.tail _ hd)) h), scan_of_none rfl]

theorem scan_toString {a : Int} (h : isWritable a) :
    scan (toString a).toList = ⟨[.num (.int a)], none⟩ := by
  have hread : ofNumeral (toString a) "" = .ok (.num (.int a)) := by
    rw [ofNumeral, if_neg (by decide), if_neg (by simp)]
    dsimp only
    rw [if_neg, if_neg, int?_toString h]
    · rfl
    · simpa using @not_mem_toString '.' (by decide) a
    · simpa using @not_mem_toString '/' (by decide) a
  have hspells := spells_toDigits a.natAbs
  obtain ⟨neg, htext, -⟩ := exists_sign a
  rw [htext, ← append_nil (Nat.toDigits 10 a.natAbs)] at hread ⊢
  rw [String.toList_ofList]
  exact scan_signed neg hspells.nonempty hspells.digits (by simp) hread

theorem scan_fraction {q : Rat} (h : q.den ≠ 1) (hnum : isWritable q.num)
    (hden : isWritable q.den) :
    scan (toString q.num ++ "/" ++ toString (q.den : Int)).toList = ⟨[.num (.frac q)], none⟩ := by
  have hspells := spells_toDigits q.num.natAbs
  have hspells' := spells_toDigits q.den
  obtain ⟨neg, hsign, hvalue⟩ := exists_sign q.num
  have htext : toString q.num ++ "/" ++ toString (q.den : Int) = String.ofList
      ((if neg then ['-'] else []) ++ (Nat.toDigits 10 q.num.natAbs ++ '/' :: Nat.toDigits 10 q.den)) := by
    apply String.toList_injective
    have hdigits : (toString (q.den : Int)).toList = Nat.toDigits 10 q.den := toList_toString _
    rw [String.toList_append, hdigits, hsign]
    simp
  have hread := hspells.fraction?_over (isWritable_iff.1 hnum) hspells'
    (isWritable_iff.1 hden) q.den_nz neg
  rw [htext, String.toList_ofList]
  refine scan_signed neg hspells.nonempty hspells.digits ?_ ?_
  · exact forall_mem_cons.2 ⟨rfl, fun c hc => isNumeric_of_isDigit (hspells'.digits c hc)⟩
  · rw [ofNumeral, if_neg (by decide), if_neg (by simp)]
    dsimp only
    rw [if_pos (by simp), hread, hvalue, Rat.mkRat_self]
    dsimp only
    rw [simplify, if_neg h]
    rfl

/-- Integers and fractions that are not whole are read back from the text that is made of them, unless
they have more digits than a text may have. -/
theorem scan_numberToString :
    (∀ a : Int, (Nat.toDigits 10 a.natAbs).length ≤ 4300 →
      ∃ text, Prim.numberToString.run [.num (.int a)] = .ok (.str text) ∧
        scan text.toList = ⟨[.num (.int a)], none⟩) ∧
    ∀ q : Rat, q.den ≠ 1 → (Nat.toDigits 10 q.num.natAbs).length ≤ 4300 →
      (Nat.toDigits 10 q.den).length ≤ 4300 →
      ∃ text, Prim.numberToString.run [.num (.frac q)] = .ok (.str text) ∧
        scan text.toList = ⟨[.num (.frac q)], none⟩ := by
  constructor
  · intro a hlen
    have h : isWritable a := isWritable_iff.2 hlen
    refine ⟨toString a, ?_, scan_toString h⟩
    change (do return Value.str (← intText a)) = _
    rw [intText_ok h]
    rfl
  · intro q hq hnumLen hdenLen
    have hnum : isWritable q.num := isWritable_iff.2 hnumLen
    have hden : isWritable q.den := isWritable_iff.2 hdenLen
    refine ⟨_, ?_, scan_fraction hq hnum hden⟩
    change (do return Value.str (← fracText q)) = _
    rw [fracText_ok hnum hden, if_neg hq]
    rfl

theorem scan_numberToString_negative :
    (∃ text, Prim.numberToString.run [.num (.int (-7))] = .ok (.str text) ∧
      scan text.toList = ⟨[.num (.int (-7))], none⟩) ∧
    ∃ text, Prim.numberToString.run [.num (.frac (-22 / 7))] = .ok (.str text) ∧
      scan text.toList = ⟨[.num (.frac (-22 / 7))], none⟩ :=
  ⟨scan_numberToString.1 (-7) (by decide), scan_numberToString.2 (-22 / 7) (by decide +kernel)
    (by decide +kernel) (by decide +kernel)⟩

end Jumpcut.Script
