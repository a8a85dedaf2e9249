import Jumpcut.Xml.Reader
import Mathlib.Data.List.TakeWhile

namespace Jumpcut.Xml

open List

def isTextChar (c : Char) : Bool := isAllowed c && c != '\r'

def isText (s : String) : Bool := s.toList.all isTextChar

def isPlainName (s : String) : Bool :=
  isText s && s != "xmlns" && !s.toList.contains ':' &&
    s.toList.head?.any isNameStart && s.toList.tail.all isNameChar

structure PlainTag (tag : String) (as : List (String × String)) : Prop where
  name : isPlainName tag
  attrs : ∀ a ∈ as, isPlainName a.1
  values : ∀ a ∈ as, a.2.toList.all isAllowed
  distinct : allDistinct (as.map (·.1))

def EndsName (cs : List Char) : Prop := ∀ c ∈ cs.head?, ¬ isNameChar c

variable {s tag : String} {d c : Char} {cs rest r : List Char} {as : List (String × String)}

theorem exists_cons_of_isPlainName (h : isPlainName s) :
    ∃ c cs, s.toList = c :: cs ∧ isNameStart c ∧ ∀ a ∈ cs, isNameChar a := by
  simp only [isPlainName, Bool.and_eq_true] at h
  cases hs : s.toList with
  | nil => simp [hs] at h
  | cons c cs => exact ⟨c, cs, rfl, by simpa [hs] using h.1.2, by simpa [hs] using h.2⟩

theorem isText_of_isPlainName (h : isPlainName s) : isText s := by
  simp only [isPlainName, Bool.and_eq_true] at h
  exact h.1.1.1.1

theorem not_mem_of_isPlainName (h : isPlainName s) : ':' ∉ s.toList := by
  simp only [isPlainName, Bool.and_eq_true] at h
  simpa using h.1.1.2

theorem ne_cons_of_isPlainName (h : isPlainName s) (hd : isNameStart d = false)
    (rest cs : List Char) : s.toList ++ rest ≠ d :: cs := by
  obtain ⟨c, cs', hcs, hc, -⟩ := exists_cons_of_isPlainName h
  intro heq
  rw [hcs, cons_append] at heq
  rw [(List.cons.inj heq).1, hd] at hc
  exact Bool.false_ne_true hc

theorem takeWhile_dropWhile_of_head {p : Char → Bool} (h : ∀ c ∈ cs.head?, ¬ p c) :
    cs.takeWhile p = [] ∧ cs.dropWhile p = cs := by
  cases cs with
  | nil => simp
  | cons c cs =>
    have hc : ¬ p c := h c rfl
    simp [hc]

theorem name_append (h : isPlainName s) (hrest : EndsName rest) :
    name (s.toList ++ rest) = some (s, rest) := by
  obtain ⟨c, cs, hs, hc, hcs⟩ := exists_cons_of_isPlainName h
  obtain ⟨htake, hdrop⟩ := takeWhile_dropWhile_of_head hrest
  rw [hs, cons_append, name, if_pos hc, takeWhile_append_of_pos hcs,
    dropWhile_append_of_pos hcs, htake, hdrop, append_nil, ← hs, String.ofList_toList]

theorem toList_escape (s : String) :
    (escape s).toList = s.toList.flatMap fun c => (escapeChar c).toList := by
  rw [escape, String.toList_join, flatMap_map]

theorem toList_escapeAttr (s : String) :
    (escapeAttr s).toList = s.toList.flatMap fun c => (escapeAttrChar c).toList := by
  rw [escapeAttr, String.toList_join, flatMap_map]

/-- How a character is written: as it is, or as a reference. -/
inductive Written (c : Char) : List Char → Prop
  | plain (hamp : c ≠ '&') (hless : c ≠ '<') (hmore : c ≠ '>') : Written c [c]
  | reference {r : List Char} (hchars : r.all fun x => x.isAlphanum || x = '#')
    (h : reference? r = some c) : Written c ('&' :: r ++ [';'])

theorem not_mem_reference (h : r.all fun x => x.isAlphanum || x = '#')
    (hc : (c.isAlphanum || c = '#') = false) : c ∉ r := by
  intro hmem
  have hr := all_eq_true.1 h c hmem
  rw [hc] at hr
  exact Bool.false_ne_true hr

theorem written_escapeChar (c : Char) : Written c (escapeChar c).toList := by
  rw [escapeChar.eq_def]
  split
  · exact .reference (r := "amp".toList) (by decide) (by decide)
  · exact .reference (r := "lt".toList) (by decide) (by decide)
  · exact .reference (r := "gt".toList) (by decide) (by decide)
  · next hamp hless hmore =>
    rw [Char.toString_eq_singleton, String.toList_singleton]
    exact .plain hamp hless hmore

theorem written_escapeAttrChar (c : Char) : Written c (escapeAttrChar c).toList := by
  rw [escapeAttrChar.eq_def]
  split
  · exact .reference (r := "quot".toList) (by decide) (by decide)
  · exact .reference (r := "#13".toList) (by decide) (by decide)
  · exact .reference (r := "#10".toList) (by decide) (by decide)
  · exact .reference (r := "#09".toList) (by decide) (by decide)
  · exact written_escapeChar c

theorem bind_some_eq_map {α β : Type} (x : Option α) (f : α → β) :
    (x.bind fun a => some (f a)) = x.map f :=
  Option.map_eq_bind.symm

theorem attrValue_pending (hr : ';' ∉ r) (q cs : List Char) :
    attrValue (some q) (r ++ ';' :: cs) =
      (reference? (q.reverse ++ r)).bind fun c => (attrValue none cs).map (c :: ·) := by
  induction r generalizing q with
  | nil => simp [attrValue, bind_some_eq_map]
  | cons d r ih =>
    rw [mem_cons, not_or] at hr
    rw [cons_append, attrValue]
    simp only [Ne.symm hr.1, if_false]
    rw [ih hr.2]
    simp

theorem safe_of_all (h : d ∈ s.toList)
    (hs : s.toList.all fun d => d != '"' && d != '\r' && d != '\n' && d != '\t') :
    d ≠ '"' ∧ d ≠ '\r' ∧ d ≠ '\n' ∧ d ≠ '\t' := by
  simpa [and_assoc] using all_eq_true.1 hs d h

theorem escapeAttrChar_safe (h : d ∈ (escapeAttrChar c).toList) :
    d ≠ '"' ∧ d ≠ '\r' ∧ d ≠ '\n' ∧ d ≠ '\t' := by
  rw [escapeAttrChar.eq_def] at h
  split at h
  · exact safe_of_all h (by decide)
  · exact safe_of_all h (by decide)
  · exact safe_of_all h (by decide)
  · exact safe_of_all h (by decide)
  · next hquote hreturn hline htab =>
    rw [escapeChar.eq_def] at h
    split at h
    · exact safe_of_all h (by decide)
    · exact safe_of_all h (by decide)
    · exact safe_of_all h (by decide)
    · rw [Char.toString_eq_singleton, String.toList_singleton, mem_singleton] at h
      subst h
      exact ⟨hquote, hreturn, hline, htab⟩

theorem Written.attrValue (h : Written c cs) (hspace : cs = [c] → isSpace c → c = ' ')
    (rest : List Char) : attrValue none (cs ++ rest) = (attrValue none rest).map (c :: ·) := by
  cases h with
  | plain hamp hless hmore =>
    have hc : (if isSpace c then ' ' else c) = c := by
      split
      · next h => exact (hspace rfl h).symm
      · rfl
    rw [singleton_append, Xml.attrValue]
    simp [hamp, hless, hc, bind_some_eq_map]
  | @reference r hchars h =>
    rw [append_assoc, cons_append, Xml.attrValue]
    simp [attrValue_pending (not_mem_reference hchars (by decide)), h]

theorem attrValue_escapeAttr (s : String) :
    attrValue none (escapeAttr s).toList = some s.toList := by
  rw [toList_escapeAttr]
  induction s.toList with
  | nil => rfl
  | cons c cs ih =>
    have hspace : (escapeAttrChar c).toList = [c] → isSpace c → c = ' ' := by
      intro hc
      have hsafe := escapeAttrChar_safe (c := c) (d := c) (by simp [hc])
      simp [isSpace, hsafe]
    rw [flatMap_cons, (written_escapeAttrChar c).attrValue hspace, ih, Option.map_some]

theorem splitAt?_append {q : Char} (h : q ∉ cs) (rest : List Char) :
    splitAt? [q] (cs ++ q :: rest) = some (cs, rest) := by
  induction cs with
  | nil => simp [splitAt?]
  | cons c cs ih =>
    rw [mem_cons, not_or] at h
    rw [cons_append, splitAt?, if_neg (by simpa using h.1), ih h.2]
    rfl

def attrText (a : String × String) : List Char :=
  ' ' :: a.1.toList ++ '=' :: '"' :: (escapeAttr a.2).toList ++ ['"']

theorem isSpace_of_isNameStart (h : isNameStart c) : ¬ isSpace c := by
  intro hspace
  simp only [isSpace, Bool.or_eq_true, decide_eq_true_eq] at hspace
  rcases hspace with (rfl | rfl) | rfl <;> exact absurd h (by decide)

theorem oneAttr_append {n v : String} (hn : isPlainName n) (rest : List Char) :
    oneAttr (n.toList ++ '=' :: '"' :: (escapeAttr v).toList ++ '"' :: rest) =
      some ((n, v), rest) := by
  have hquote : '"' ∉ (escapeAttr v).toList := by
    intro hmem
    rw [toList_escapeAttr, mem_flatMap] at hmem
    obtain ⟨c, -, hc⟩ := hmem
    exact (escapeAttrChar_safe hc).1 rfl
  have hends : EndsName ('=' :: '"' :: ((escapeAttr v).toList ++ '"' :: rest)) := by
    intro c hc
    cases hc
    decide
  rw [oneAttr, append_assoc, cons_append, cons_append, name_append hn hends]
  simp [skipSpace, isSpace, splitAt?_append hquote, attrValue_escapeAttr]

def tagEnd : Bool → List Char
  | false => ['>']
  | true => [' ', '/', '>']

theorem attributes_append (h : ∀ a ∈ as, isPlainName a.1) (closed : Bool) (rest : List Char)
    {n : Nat} (hn : as.length < n) :
    attributes n (as.flatMap attrText ++ (tagEnd closed ++ rest)) =
      some ((as, closed), rest) := by
  induction as generalizing n with
  | nil =>
    obtain ⟨n, rfl⟩ := Nat.exists_eq_add_one_of_ne_zero (Nat.ne_zero_of_lt hn)
    cases closed <;> simp [attributes, tagEnd, skipSpace, isSpace]
  | cons a as ih =>
    obtain ⟨n, rfl⟩ := Nat.exists_eq_add_one_of_ne_zero (Nat.ne_zero_of_lt hn)
    obtain ⟨hname, htail⟩ := forall_mem_cons.1 h
    obtain ⟨c, cs, hcs, hc, -⟩ := exists_cons_of_isPlainName hname
    have hskip : skipSpace ((a :: as).flatMap attrText ++ (tagEnd closed ++ rest)) =
        a.1.toList ++ '=' :: '"' :: (escapeAttr a.2).toList ++
          '"' :: (as.flatMap attrText ++ (tagEnd closed ++ rest)) := by
      have hstop := isSpace_of_isNameStart hc
      simp [attrText, skipSpace, hcs, hstop, show isSpace ' ' = true from rfl]
    rw [attributes, hskip]
    split
    · next heq =>
      rw [append_assoc] at heq
      exact absurd heq (ne_cons_of_isPlainName hname (by decide) _ _)
    · next heq =>
      rw [append_assoc] at heq
      exact absurd heq (ne_cons_of_isPlainName hname (by decide) _ _)
    · have hlength : ¬ (a.1.toList ++ '=' :: '"' :: (escapeAttr a.2).toList ++
          '"' :: (as.flatMap attrText ++ (tagEnd closed ++ rest))).length =
          ((a :: as).flatMap attrText ++ (tagEnd closed ++ rest)).length := by
        simp [attrText]
      rw [if_neg hlength, oneAttr_append hname]
      simp [ih htail (Nat.lt_of_succ_lt_succ hn)]

theorem toList_head (tag : String) (as : List (String × String)) :
    (head tag as).toList = '<' :: (tag.toList ++ as.flatMap attrText) := by
  have hattr : ∀ a : String × String,
      (" " ++ a.1 ++ "=\"" ++ escapeAttr a.2 ++ "\"").toList = attrText a := by
    simp [attrText]
  simp [head, String.toList_join, flatMap_map, hattr]

theorem endsName_attrs (as : List (String × String)) (closed : Bool) (rest : List Char) :
    EndsName (as.flatMap attrText ++ (tagEnd closed ++ rest)) := by
  intro c hc
  cases as with
  | nil => cases closed <;> cases hc <;> decide
  | cons a as =>
    cases hc
    decide

theorem PlainTag.mark_opening (h : PlainTag tag as) (closed : Bool) (rest : List Char) {n : Nat}
    (hn : as.length < n) :
    mark n ((head tag as).toList ++ (tagEnd closed ++ rest)) =
      some (some (.opening tag as closed), rest) := by
  rw [toList_head, cons_append, append_assoc, mark, openingMark,
    name_append h.name (endsName_attrs as closed rest)]
  · simp [attributes_append h.attrs closed rest hn]
  · exact fun cs => ne_cons_of_isPlainName h.name (by decide) _ cs
  · exact fun cs => ne_cons_of_isPlainName h.name (by decide) _ cs
  · exact fun cs => ne_cons_of_isPlainName h.name (by decide) _ _
  · exact fun cs => ne_cons_of_isPlainName h.name (by decide) _ cs

theorem mark_closing (htag : isPlainName tag) (rest : List Char) (n : Nat) :
    mark n ('<' :: '/' :: (tag.toList ++ '>' :: rest)) = some (some (.closing tag), rest) := by
  have hends : EndsName ('>' :: rest) := by
    intro c hc
    cases hc
    decide
  rw [mark, closingMark, name_append htag hends]
  simp [skipSpace, isSpace]

def isPlain (c : Char) : Bool := c != '<' && c != '&'

theorem occurs_eq_false {small : List Char} (hc : c ∈ small) (h : c ∉ cs) :
    Text.occurs small cs = false := by
  induction cs with
  | nil =>
    rw [Text.occurs, isEmpty_eq_false_iff]
    exact ne_nil_of_mem hc
  | cons d cs ih =>
    have hpre : small.isPrefixOf (d :: cs) = false := by
      by_contra hpre
      rw [Bool.not_eq_false, isPrefixOf_iff_prefix] at hpre
      exact h (hpre.subset hc)
    rw [Text.occurs, hpre, ih fun hmem => h (mem_cons_of_mem d hmem)]
    rfl

theorem mark_text (hcs : ∀ c ∈ cs.head?, isPlain c) (hmore : '>' ∉ cs.takeWhile isPlain) (n : Nat) :
    mark n cs = some (some (.text true (cs.takeWhile isPlain)), cs.dropWhile isPlain) := by
  have hhead : ∀ d rest, isPlain d = false → cs ≠ d :: rest := by
    rintro d rest hd rfl
    simpa [hd] using hcs d rfl
  have hrun : cs.takeWhile (fun c => c != '<' && c != '&') = cs.takeWhile isPlain := rfl
  have hdrop : (cs.takeWhile isPlain ++ cs.dropWhile isPlain).drop (cs.takeWhile isPlain).length =
      cs.dropWhile isPlain := drop_left
  rw [takeWhile_append_dropWhile] at hdrop
  have hoccurs : Text.occurs "]]>".toList (cs.takeWhile isPlain) = false :=
    occurs_eq_false (by decide) hmore
  rw [mark]
  · simp only [hrun, hoccurs, hdrop, Bool.false_eq_true, if_false]
  · exact fun rest => hhead _ _ rfl
  · exact fun rest => hhead _ _ rfl
  · exact fun rest => hhead _ _ rfl
  · exact fun rest => hhead _ _ rfl
  · exact fun rest => hhead _ _ rfl
  · exact fun rest => hhead _ _ rfl

theorem mark_reference (hr : ';' ∉ r) (h : reference? r = some c) (rest : List Char) (n : Nat) :
    mark n ('&' :: r ++ ';' :: rest) = some (some (.text false [c]), rest) := by
  rw [cons_append, mark, referenceMark, splitAt?_append hr]
  simp [h]

theorem isTextChar_of_isAlphanum (h : c.isAlphanum) : isTextChar c := by
  have hbounds : 48 ≤ c.toNat ∧ c.toNat ≤ 122 := by
    have hclass : (decide (65 ≤ c.val ∧ c.val ≤ 90) ||
        (decide (97 ≤ c.val) && decide (c.val ≤ 122)) ||
        (decide (48 ≤ c.val) && decide (c.val ≤ 57))) = true := h
    simp only [Bool.or_eq_true, Bool.and_eq_true, decide_eq_true_eq, UInt32.le_iff_toNat_le,
      UInt32.reduceToNat, Char.toNat_val] at hclass
    omega
  have hreturn : c ≠ '\r' := by
    rintro rfl
    exact absurd hbounds (by decide)
  rw [isTextChar, isAllowed, if_neg (by omega)]
  simp [hreturn]
  omega

theorem Written.isTextChar (h : Written c cs) (hc : cs = [c] → isTextChar c) :
    cs.all isTextChar := by
  cases h with
  | plain hamp hless hmore => simpa using hc rfl
  | @reference r hchars h =>
    have hr : r.all Xml.isTextChar := by
      rw [all_eq_true] at hchars ⊢
      intro x hx
      have hx := hchars x hx
      rw [Bool.or_eq_true, decide_eq_true_eq] at hx
      rcases hx with hx | rfl
      · exact isTextChar_of_isAlphanum hx
      · decide
    simp only [cons_append, all_cons, all_append, hr]
    decide

theorem isText_escape (h : isText s) : isText (escape s) := by
  rw [isText, all_eq_true] at h
  rw [isText, toList_escape, all_flatMap, all_eq_true]
  exact fun c hc => (written_escapeChar c).isTextChar fun _ => h c hc

theorem isText_escapeAttr (h : s.toList.all isAllowed) : isText (escapeAttr s) := by
  rw [all_eq_true] at h
  rw [isText, toList_escapeAttr, all_flatMap, all_eq_true]
  refine fun c hc => (written_escapeAttrChar c).isTextChar fun heq => ?_
  have hsafe := escapeAttrChar_safe (c := c) (d := c) (by simp [heq])
  simp [isTextChar, h c hc, hsafe]

theorem isText_append {t : String} : isText (s ++ t) = (isText s && isText t) := by
  simp [isText]

theorem isText_newline (n : Nat) : isText (newline n) := by
  rw [newline, isText_append]
  simp only [isText, String.toList_ofList, all_replicate]
  split <;> decide

theorem PlainTag.isText_head (h : PlainTag tag as) : isText (head tag as) := by
  have hattrs : (as.flatMap attrText).all isTextChar := by
    rw [all_flatMap, all_eq_true]
    intro a ha
    have hname := isText_of_isPlainName (h.attrs a ha)
    have hvalue := isText_escapeAttr (h.values a ha)
    rw [isText] at hname hvalue
    simp only [attrText, cons_append, all_cons, all_append, hname, hvalue]
    decide
  have htag := isText_of_isPlainName h.name
  rw [isText] at htag ⊢
  rw [toList_head, all_cons, all_append, htag, hattrs]
  decide

theorem pairs_cons {a : String × String} (hc : isNameStart c)
    (h : oneAttr (c :: cs) = some (a, rest)) (hspace : isSpace c = false) (n : Nat) :
    declaration.pairs (n + 1) (' ' :: c :: cs) =
      (declaration.pairs n rest).map fun p => (a :: p.1, p.2) := by
  have hskip : skipSpace (' ' :: c :: cs) = c :: cs := by
    simp [skipSpace, hspace, show isSpace ' ' = true from rfl]
  rw [declaration.pairs, hskip]
  split
  · next heq =>
    rw [(List.cons.inj heq).1] at hc
    exact absurd hc (by decide)
  · simp [h, bind_some_eq_map]

theorem declaration_utf8 (rest : List Char) :
    declaration ("<?xml version='1.0' encoding='utf-8'?>".toList ++ rest) =
      some (some "utf-8", rest) := by
  have hend : ∀ n, declaration.pairs (n + 1) ('?' :: '>' :: rest) = some ([], rest) := by
    intro n
    rfl
  have hversion : oneAttr ("version='1.0' encoding='utf-8'?>".toList ++ rest) =
      some (("version", "1.0"), " encoding='utf-8'?>".toList ++ rest) := rfl
  have hencoding : oneAttr ("encoding='utf-8'?>".toList ++ rest) =
      some (("encoding", "utf-8"), '?' :: '>' :: rest) := rfl
  have hpairs : ∀ n, declaration.pairs (n + 3)
      (' ' :: ("version='1.0' encoding='utf-8'?>".toList ++ rest)) =
        some ([("version", "1.0"), ("encoding", "utf-8")], rest) := by
    intro n
    refine (pairs_cons (by decide) hversion (by decide) (n + 2)).trans ?_
    refine (congrArg _ (pairs_cons (by decide) hencoding (by decide) (n + 1))).trans ?_
    rw [hend]
    rfl
  have hlength : ("version='1.0' encoding='utf-8'?>".toList ++ rest).length =
      (rest.length + 29) + 3 := by
    simp
  have hfront : "<?xml".toList.isPrefixOf
      ("<?xml version='1.0' encoding='utf-8'?>".toList ++ rest) = true := rfl
  have hdrop : ("<?xml version='1.0' encoding='utf-8'?>".toList ++ rest).drop 5 =
      ' ' :: ("version='1.0' encoding='utf-8'?>".toList ++ rest) := rfl
  rw [declaration, hfront, hdrop]
  simp only [show isSpace ' ' = true from rfl, if_true, hlength, hpairs]
  rfl

end Jumpcut.Xml
