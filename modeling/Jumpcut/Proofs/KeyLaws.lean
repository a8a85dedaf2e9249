import Jumpcut.Analysis.Method
import Jumpcut.Proofs.DecimalLaws
import Jumpcut.Proofs.WorkspaceLaws

namespace Jumpcut

open List Number Method Setting

theorem eq_of_append_separator {α : Type} {c : α} {xs ys rest rest' : List α} (hxs : c ∉ xs)
    (hys : c ∉ ys) (h : xs ++ c :: rest = ys ++ c :: rest') : xs = ys ∧ rest = rest' := by
  induction xs generalizing ys with
  | nil =>
    cases ys with
    | nil => exact ⟨rfl, (cons.inj h).2⟩
    | cons y ys => exact absurd ((cons.inj h).1 ▸ .head _) hys
  | cons x xs ih =>
    cases ys with
    | nil => exact absurd ((cons.inj h).1 ▸ .head _) hxs
    | cons y ys =>
      obtain ⟨rfl, htail⟩ := cons.inj h
      obtain ⟨rfl, hrest⟩ := ih (fun hc => hxs (.tail _ hc)) (fun hc => hys (.tail _ hc)) htail
      exact ⟨rfl, hrest⟩

theorem eq_of_append_tail {α : Type} {c : α} {xs ys rest rest' : List α} (hxs : c ∉ xs)
    (hys : c ∉ ys) (hrest : ∀ x ∈ rest.head?, x = c) (hrest' : ∀ x ∈ rest'.head?, x = c)
    (h : xs ++ rest = ys ++ rest') : xs = ys ∧ rest = rest' := by
  cases rest with
  | nil =>
    cases rest' with
    | nil => exact ⟨by simpa using h, rfl⟩
    | cons r rest' =>
      obtain rfl := hrest' r rfl
      rw [append_nil] at h
      exact absurd (h ▸ mem_append_right _ (.head _)) hxs
  | cons r rest =>
    obtain rfl := hrest r rfl
    cases rest' with
    | nil =>
      rw [append_nil] at h
      exact absurd (h ▸ mem_append_right _ (.head _)) hys
    | cons r' rest' =>
      obtain rfl := hrest' r' rfl
      obtain ⟨hfirst, rfl⟩ := eq_of_append_separator hxs hys h
      exact ⟨hfirst, rfl⟩

theorem eq_of_map_eq {α β : Type} {f : α → β} {xs ys : List α}
    (hf : ∀ x ∈ xs, ∀ y ∈ ys, f x = f y → x = y) (h : xs.map f = ys.map f) : xs = ys := by
  induction xs generalizing ys with
  | nil => exact (map_eq_nil_iff.1 h.symm).symm
  | cons x xs ih =>
    obtain ⟨y, ys, rfl, hy, hrest⟩ := map_eq_cons_iff.1 h.symm
    rw [hf x (.head _) y (.head _) hy.symm,
      ih (fun x hx y hy => hf x (.tail _ hx) y (.tail _ hy)) hrest.symm]

namespace Number

theorem display_int {n : Int} (h : isWritable n) : (int n).display = toString n := by
  rw [display, text, intText_ok h]

theorem toList_display_frac {q : Rat} (hnum : isWritable q.num) (hden : isWritable q.den) :
    (frac q).display.toList = (toString q.num).toList ++
      if q.den = 1 then [] else '/' :: (toString (q.den : Int)).toList := by
  rw [display, text, fracText_ok hnum hden]
  dsimp only
  split
  · simp
  · simp

theorem isOk_text_frac (q : Rat) : (frac q).text.isOk = (isWritable q.num && isWritable q.den) := by
  have hone : isWritable (1 : Nat) := by decide +kernel
  rw [text, fracText, intText, intText]
  cases isWritable q.num with
  | false => rfl
  | true =>
    rw [if_pos rfl, Outcome.ok_bind]
    by_cases hden : q.den = 1
    · rw [if_pos hden, hden, hone]
      rfl
    · rw [if_neg hden]
      cases isWritable q.den <;> rfl

theorem not_mem_display_frac {q : Rat} (hnum : isWritable q.num) (hden : isWritable q.den)
    {c : Char} (hc : c ≠ '-' ∧ ¬ c.isDigit) (hslash : c ≠ '/') : c ∉ (frac q).display.toList := by
  rw [toList_display_frac hnum hden, mem_append]
  rintro (hmem | hmem)
  · exact not_mem_toString hc _ hmem
  · split at hmem
    · cases hmem
    · rcases mem_cons.1 hmem with heq | hmem
      · exact hslash heq
      · exact not_mem_toString hc _ hmem

theorem eq_of_display_frac {p q : Rat} (hp : isWritable p.num ∧ isWritable p.den)
    (hq : isWritable q.num ∧ isWritable q.den)
    (h : (frac p).display = (frac q).display) : p = q := by
  have hslash (n : Int) : '/' ∉ (toString n).toList := not_mem_toString (by decide) n
  have hhead (r : Rat) : ∀ c ∈ (if r.den = 1 then [] else
      '/' :: (toString (r.den : Int)).toList).head?, c = '/' := by
    split <;> simp
  have hnumber {m n : Int} (h : (toString m).toList = (toString n).toList) : m = n :=
    Int.repr_inj.1 (String.toList_injective h)
  have htexts := congrArg String.toList h
  rw [toList_display_frac hp.1 hp.2, toList_display_frac hq.1 hq.2] at htexts
  obtain ⟨hnum, hden⟩ := eq_of_append_tail (hslash _) (hslash _) (hhead p) (hhead q) htexts
  refine Rat.ext (hnumber hnum) ?_
  by_cases hone : p.den = 1 <;> by_cases hone' : q.den = 1 <;>
    simp only [hone, hone', if_true, if_false, reduceCtorEq, cons.injEq, true_and] at hden ⊢
  exact_mod_cast hnumber hden

end Number

namespace Cache

def listed (ps : List (String × String)) : List Char :=
  ps.flatMap fun p => p.1.toList ++ '=' :: (p.2.toList ++ [','])

/-- The end of a key: the settings, without the last comma and its colon if there are none. -/
def ending (ps : List (String × String)) : List Char :=
  if ps = [] then [] else ':' :: (listed ps).dropLast

variable {ps qs : List (String × String)}

theorem listed_ne_nil (h : ps ≠ []) : listed ps ≠ [] := by
  cases ps with
  | nil => exact absurd rfl h
  | cons p ps => simp [listed]

theorem getLast?_listed (h : ps ≠ []) : (listed ps).getLast? = some ',' := by
  induction ps with
  | nil => exact absurd rfl h
  | cons p ps ih =>
    rw [listed, flatMap_cons, getLast?_append]
    cases ps with
    | nil => simp [getLast?_cons]
    | cons q qs =>
      have := ih (by simp)
      rw [listed] at this
      rw [this]
      rfl

theorem toList_key (tag : String) (tb : Rat) (settings : List (String × String)) :
    (key tag tb settings).toList = tag.toList ++ ':' :: ((frac tb).display.toList ++
      ending (settings.filter (·.1 != "threshold"))) := by
  rw [key]
  generalize settings.filter (·.1 != "threshold") = kept
  have hjoin : (String.join (kept.map fun p => p.1 ++ "=" ++ p.2 ++ ",")).toList = listed kept := by
    rw [String.toList_join, flatMap_map, listed]
    congr 1
    funext p
    simp
  have hcolon : ":".toList = [':'] := rfl
  simp only [String.toList_ofList, String.toList_append, hjoin, hcolon, ending]
  by_cases h : kept = []
  · subst h
    rw [if_pos rfl, listed, flatMap_nil, append_nil, append_nil,
      dropLast_concat]
    simp
  · rw [if_neg h, dropLast_append_of_ne_nil (listed_ne_nil h)]
    simp

def Plain (ps : List (String × String)) : Prop := ∀ p ∈ ps, '=' ∉ p.1.toList ∧ ',' ∉ p.2.toList

theorem eq_of_listed (hp : Plain ps) (hq : Plain qs) (h : listed ps = listed qs) : ps = qs := by
  induction ps generalizing qs with
  | nil =>
    cases qs with
    | nil => rfl
    | cons q qs => exact absurd h.symm (listed_ne_nil (by simp))
  | cons p ps ih =>
    cases qs with
    | nil => exact absurd h (listed_ne_nil (by simp))
    | cons q qs =>
      obtain ⟨hp, hps⟩ := forall_mem_cons.1 hp
      obtain ⟨hq, hqs⟩ := forall_mem_cons.1 hq
      simp only [listed, flatMap_cons, append_assoc, cons_append,
        nil_append] at h
      -- A name ends at the first equals sign, its value at the next comma.
      obtain ⟨hname, h⟩ := eq_of_append_separator hp.1 hq.1 h
      obtain ⟨hvalue, h⟩ := eq_of_append_separator hp.2 hq.2 h
      rw [Prod.ext (String.toList_injective hname) (String.toList_injective hvalue), ih hps hqs h]

theorem eq_of_ending (hp : Plain ps) (hq : Plain qs) (h : ending ps = ending qs) : ps = qs := by
  rw [ending, ending] at h
  split at h
  · next hps =>
    split at h
    · next hqs => rw [hps, hqs]
    · cases h
  · next hps =>
    split at h
    · cases h
    · next hqs =>
      refine eq_of_listed hp hq ?_
      rw [← dropLast_append_getLast? ',' (getLast?_listed hps),
        ← dropLast_append_getLast? ',' (getLast?_listed hqs), (cons.inj h).2]

/-- What levels are kept for: an analysis of a file, with its attributes, at a time base. -/
structure Entry extends Key where
  path : String

def analyses : List (String × List String) :=
  [("audio", audioSchema.attrs.map (·.name)),
    ("motion", motionSchema.attrs.map (·.name)),
    ("pixeldiff", pixelSchema.attrs.map (·.name))]

namespace Entry

def key (e : Entry) : String := Cache.key e.tag e.tb (settings e.attrs)

/-- The attributes are among those of the analysis and in its order, and all but the threshold are
integers. The numbers can be written. -/
structure Proper (e : Entry) : Prop where
  declared : ∃ names, analyses.lookup e.tag = some names ∧ (e.attrs.map Prod.fst).Sublist names
  whole : ∀ p ∈ e.attrs, p.1 ≠ "threshold" → ∃ n, p.2 = .number (.int n) ∧ isWritable n
  timed : isWritable e.tb.num ∧ isWritable e.tb.den

/-- The same analysis of the same file. A threshold does not count. -/
structure Same (a b : Entry) : Prop where
  path : a.path = b.path
  tag : a.tag = b.tag
  tb : a.tb = b.tb
  attrs : ∀ name, name ≠ "threshold" → a.attrs.lookup name = b.attrs.lookup name

end Entry

section Kept

variable {β : Type} {order : List String}

theorem lookup_eq_none_of_sublist {xs : List (String × β)} {n : String}
    (h : (xs.map Prod.fst).Sublist order) (hn : n ∉ order) : xs.lookup n = none := by
  rw [lookup_eq_none_iff]
  intro p hp
  have hmem : p.1 ∈ order := h.subset (mem_map_of_mem hp)
  have hne : n ≠ p.1 := fun heq => hn (heq ▸ hmem)
  simpa using hne

theorem sublist_cons_cases {xs : List (String × β)} {o : String}
    (h : (xs.map Prod.fst).Sublist (o :: order)) : (xs.map Prod.fst).Sublist order ∨
      ∃ v rest, xs = (o, v) :: rest ∧ (rest.map Prod.fst).Sublist order := by
  rcases sublist_cons_iff.1 h with h | ⟨names, hnames, hrest⟩
  · exact .inl h
  · obtain ⟨⟨n, v⟩, rest, rfl, rfl, rfl⟩ := map_eq_cons_iff.1 hnames
    exact .inr ⟨v, rest, rfl, hrest⟩

theorem eq_of_lookup (hnodup : order.Nodup) {xs ys : List (String × β)}
    (hxs : (xs.map Prod.fst).Sublist order) (hys : (ys.map Prod.fst).Sublist order)
    (h : ∀ n, xs.lookup n = ys.lookup n) : xs = ys := by
  induction order generalizing xs ys with
  | nil =>
    rw [map_eq_nil_iff.1 (sublist_nil.1 hxs),
      map_eq_nil_iff.1 (sublist_nil.1 hys)]
  | cons o order ih =>
    obtain ⟨ho, hnodup⟩ := nodup_cons.1 hnodup
    have hfirst := h o
    rcases sublist_cons_cases hxs with hx | ⟨v, xs', rfl, hx⟩ <;>
      rcases sublist_cons_cases hys with hy | ⟨u, ys', rfl, hy⟩
    · exact ih hnodup hx hy h
    · rw [lookup_eq_none_of_sublist hx ho, lookup_pair_cons, if_pos rfl] at hfirst
      cases hfirst
    · rw [lookup_eq_none_of_sublist hy ho, lookup_pair_cons, if_pos rfl] at hfirst
      cases hfirst
    · rw [lookup_pair_cons, lookup_pair_cons, if_pos rfl, if_pos rfl] at hfirst
      have hrest : ∀ n, xs'.lookup n = ys'.lookup n := by
        intro n
        by_cases hn : n = o
        · rw [hn, lookup_eq_none_of_sublist hx ho, lookup_eq_none_of_sublist hy ho]
        · have hlookup := h n
          rwa [lookup_pair_cons, lookup_pair_cons, if_neg hn, if_neg hn] at hlookup
      rw [Option.some.inj hfirst, ih hnodup hx hy hrest]

end Kept

namespace Entry

variable {a b : Entry}

def kept (e : Entry) : Values := e.attrs.filter (·.1 != "threshold")

theorem settings_kept (e : Entry) :
    (settings e.attrs).filter (·.1 != "threshold") = settings e.kept := by
  rw [settings, filter_map]
  rfl

theorem plain_of_lookup {tag : String} {names : List String}
    (h : analyses.lookup tag = some names) :
    ':' ∉ tag.toList ∧ names.Nodup ∧ ∀ name ∈ names, '=' ∉ name.toList := by
  have hall : ∀ p ∈ analyses, ':' ∉ p.1.toList ∧ p.2.Nodup ∧ ∀ name ∈ p.2, '=' ∉ name.toList := by
    decide
  obtain ⟨before, rest, hsplit, -⟩ := lookup_eq_some_iff.1 h
  exact hall (tag, names) (hsplit ▸ mem_append_right _ (.head _))

theorem Proper.kept_integer (h : a.Proper) {p : String × Raw} (hp : p ∈ a.kept) :
    ∃ n, p.2 = .number (.int n) ∧ p.2.display = toString n := by
  obtain ⟨hp, hname⟩ := mem_filter.1 hp
  obtain ⟨n, hn, hwritable⟩ := h.whole p hp (by simpa using hname)
  have hdisplay : (Raw.number (.int n)).display = (int n).display := rfl
  exact ⟨n, hn, by rw [hn, hdisplay, display_int hwritable]⟩

theorem Proper.plain (h : a.Proper) : Plain (settings a.kept) := by
  obtain ⟨names, hlookup, hnames⟩ := h.declared
  intro p hp
  obtain ⟨q, hq, rfl⟩ := mem_map.1 hp
  obtain ⟨n, -, hdisplay⟩ := h.kept_integer hq
  constructor
  · exact (plain_of_lookup hlookup).2.2 q.1
      (hnames.subset (mem_map_of_mem (mem_filter.1 hq).1))
  · change ',' ∉ q.2.display.toList
    rw [hdisplay]
    exact not_mem_toString (by decide) n

section

variable (ha : a.Proper) (hb : b.Proper)

include ha hb

theorem Proper.kept_of_settings (h : settings a.kept = settings b.kept) :
    a.kept = b.kept := by
  refine eq_of_map_eq ?_ h
  intro p hp q hq hpq
  obtain ⟨m, hm, hdisplay⟩ := ha.kept_integer hp
  obtain ⟨n, hn, hdisplay'⟩ := hb.kept_integer hq
  obtain ⟨hname, htext⟩ := Prod.mk.inj hpq
  rw [hdisplay, hdisplay'] at htext
  refine Prod.ext hname ?_
  rw [hm, hn, Int.repr_inj.1 htext]

theorem Proper.kept_eq_iff (htag : a.tag = b.tag) :
    a.kept = b.kept ↔ ∀ name, name ≠ "threshold" → a.attrs.lookup name = b.attrs.lookup name := by
  have hkept (e : Entry) (name : String) :
      e.kept.lookup name = if name = "threshold" then none else e.attrs.lookup name :=
    lookup_filter_ne _ _ _
  constructor
  · intro h name hname
    have hlookup := congrArg (lookup name) h
    rwa [hkept, hkept, if_neg hname, if_neg hname] at hlookup
  · intro h
    obtain ⟨names, hlookup, hnames⟩ := ha.declared
    obtain ⟨names', hlookup', hnames'⟩ := hb.declared
    rw [← htag, hlookup] at hlookup'
    cases hlookup'
    refine eq_of_lookup (plain_of_lookup hlookup).2.1
      ((filter_sublist.map _).trans hnames) ((filter_sublist.map _).trans hnames') ?_
    intro name
    rw [hkept, hkept]
    split
    · rfl
    · next hname => exact h name hname

theorem Proper.key_eq_iff :
    a.key = b.key ↔ a.tag = b.tag ∧ a.tb = b.tb ∧
      ∀ name, name ≠ "threshold" → a.attrs.lookup name = b.attrs.lookup name := by
  have hcolon {e : Entry} (he : e.Proper) : ':' ∉ e.tag.toList := by
    obtain ⟨names, hlookup, -⟩ := he.declared
    exact (plain_of_lookup hlookup).1
  constructor
  · intro h
    have htexts := congrArg String.toList h
    rw [key, key, toList_key, toList_key, settings_kept, settings_kept] at htexts
    obtain ⟨htag, hrest⟩ := eq_of_append_separator (hcolon ha) (hcolon hb) htexts
    have htag := String.toList_injective htag
    have hhead (ps : List (String × String)) : ∀ c ∈ (ending ps).head?, c = ':' := by
      rw [ending]
      split <;> simp
    have htb {e : Entry} (he : e.Proper) : ':' ∉ (frac e.tb).display.toList :=
      not_mem_display_frac he.timed.1 he.timed.2 (by decide) (by decide)
    obtain ⟨hdisplay, hending⟩ := eq_of_append_tail (htb ha) (htb hb) (hhead _) (hhead _) hrest
    have htb := eq_of_display_frac ha.timed hb.timed (String.toList_injective hdisplay)
    have hkept := ha.kept_of_settings hb (eq_of_ending ha.plain hb.plain hending)
    exact ⟨htag, htb, (ha.kept_eq_iff hb htag).1 hkept⟩
  · rintro ⟨htag, htb, hattrs⟩
    apply String.toList_injective
    rw [key, key, toList_key, toList_key, settings_kept, settings_kept, htag, htb,
      (ha.kept_eq_iff hb htag).2 hattrs]

theorem same_iff : a.Same b ↔ a.path = b.path ∧ a.key = b.key := by
  rw [ha.key_eq_iff hb]
  constructor
  · intro h
    exact ⟨h.path, h.tag, h.tb, h.attrs⟩
  · rintro ⟨hpath, htag, htb, hattrs⟩
    exact ⟨hpath, htag, htb, hattrs⟩

end

theorem Proper.text_eq (h : a.Proper) : a.toKey.text = .ok a.key := by
  refine if_pos ?_
  rw [isOk_text_frac, h.timed.1, h.timed.2, Bool.true_and, Bool.true_and, all_eq_true]
  intro p hp
  by_cases hname : p.1 = "threshold"
  · simp [hname]
  · obtain ⟨n, hn, hwritable⟩ := h.whole p hp hname
    rw [hn, Raw.isWritable, text, intText_ok hwritable]
    exact Bool.or_true _

theorem text_of_long (h : ¬ (isWritable a.tb.num ∧ isWritable a.tb.den)) :
    a.toKey.text = .error .badValue := by
  refine if_neg fun htext => h ?_
  rw [isOk_text_frac] at htext
  simpa using (Bool.and_eq_true_iff.1 htext).1

end Entry

end Cache

end Jumpcut
