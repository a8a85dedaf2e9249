import Jumpcut.Proofs.OutcomeLaws
import Jumpcut.Site.Component
import Mathlib.Logic.Relation

/-!
Filling the markers of a component. A pass puts an argument in for a marker, wherever that marker
stands. New markers may come of it, but arguments have no closing brace, so every pass takes closing
braces away and there are at most half as many passes as closing braces.
-/
namespace Jumpcut

open List Outcome Text

namespace Text

variable {c : Char} {old new text : List Char}

theorem count_replaceAll_le (hc : c ∉ new) : (replaceAll old new text).count c ≤ text.count c := by
  fun_induction replaceAll old new text with
  | case1 => exact Nat.le_refl _
  | case2 d cs _ ih =>
    rw [count_append, count_eq_zero.2 hc, Nat.zero_add]
    exact Nat.le_trans ih (((drop_sublist _ cs).trans (sublist_cons_self d cs)).count_le c)
  | case3 d cs _ ih => simpa only [count_cons, Nat.add_le_add_iff_right] using ih

theorem count_replaceAll_add_le (hc : c ∉ new) (hold : old ≠ []) (h : old <:+: text) :
    (replaceAll old new text).count c + old.count c ≤ text.count c := by
  fun_induction replaceAll old new text with
  | case1 => exact absurd (infix_nil.1 h) hold
  | case2 d cs hfront _ =>
    obtain ⟨rest, hrest⟩ := isPrefixOf_iff_prefix.1 hfront
    obtain ⟨e, es, rfl⟩ := exists_cons_of_ne_nil hold
    obtain ⟨rfl, rfl⟩ := cons.inj hrest
    have hle := @count_replaceAll_le c (e :: es) new rest hc
    change count c (new ++ replaceAll (e :: es) new ((es ++ rest).drop es.length)) + _ ≤
      (e :: es ++ rest).count c
    rw [drop_left, count_append, count_append, count_eq_zero.2 hc]
    omega
  | case3 d cs hfront ih =>
    have hnot : ¬ old <+: d :: cs := mt isPrefixOf_iff_prefix.2 hfront
    have := ih ((infix_cons_iff.1 h).resolve_left hnot)
    simp only [count_cons]
    omega

theorem notMem_shellWordsFrom {place : ShellPlace} {done cs : List Char} {words : List String}
    (hslash : c ≠ '\\') (hdone : c ∉ done) (hcs : c ∉ cs)
    (h : shellWordsFrom place done cs = .ok words) : ∀ w ∈ words, c ∉ w.toList := by
  fun_induction shellWordsFrom place done cs generalizing words with
  | case9 done d cs _ ih =>
    obtain ⟨rest, hrest, hwords⟩ := bind_eq_ok.1 h
    cases hwords
    simpa [hdone] using ih not_mem_nil (fun h => hcs (mem_cons_of_mem d h)) hrest
  | case2 =>
    cases h
    simpa using hdone
  | _ => simp_all

end Text

namespace Site

variable {m : Marker} {cs text text' : List Char}

namespace Marker

structure Proper (m : Marker) : Prop where
  first : isBlank m.first
  inner : m.inner ≠ [] ∧ '\x7d' ∉ m.inner
  last : isBlank m.last

theorem of_front? (h : front? cs = some m) : m.Proper ∧ m.text <+: cs := by
  rw [front?.eq_def] at h
  split at h
  · next first cs =>
    dsimp only at h
    split at h
    · next last inner rest hrev hdrop =>
      have hbody := reverse_eq_cons_iff.1 hrev
      have hcs := prefix_iff_eq_append.1 <| takeWhile_prefix (l := cs) (· ≠ '\x7d')
      have hmem := all_eq_true.1 (all_takeWhile (p := (· ≠ '\x7d')) (l := cs))
      rw [hdrop, hbody] at hcs
      rw [hbody] at hmem
      split at h
      · next hcond =>
        cases h
        simp only [Bool.and_eq_true, Bool.not_eq_true', isEmpty_eq_false_iff] at hcond
        refine ⟨⟨hcond.1.1, ⟨by simpa using hcond.2, fun h => ?_⟩, hcond.1.2⟩, rest, ?_⟩
        · simpa using hmem _ (mem_append_left _ h)
        · simp [text, ← hcs]
      · cases h
    · cases h
  · cases h

theorem front?_text (hm : m.Proper) (rest : List Char) : front? (m.text ++ rest) = some m := by
  obtain ⟨hfirst, ⟨hne, hinner⟩, hlast⟩ := hm
  have htext : m.text ++ rest =
      '\x7b' :: '\x7b' :: m.first :: (m.inner ++ [m.last] ++ '\x7d' :: '\x7d' :: rest) := by
    simp [text]
  have hbody : ∀ c ∈ m.inner ++ [m.last], decide (c ≠ '\x7d') = true := by
    have : ¬ isBlank '\x7d' := by decide
    grind
  rw [htext, front?, takeWhile_append_of_pos hbody, takeWhile_cons_of_neg (by simp), append_nil,
    drop_left]
  simp [hfirst, hlast, hne]

theorem not_infix_of_find? (h : find? cs = none) (hm : m.Proper) : ¬ m.text <:+: cs := by
  induction cs with
  | nil => simp [infix_nil, text]
  | cons c cs ih =>
    rw [find?] at h
    split at h
    · cases h
    · next hfront =>
      rw [infix_cons_iff, not_or]
      refine ⟨?_, ih h⟩
      rintro ⟨rest, hrest⟩
      rw [← hrest, front?_text hm] at hfront
      cases hfront

theorem of_find? (h : find? cs = some m) : m.Proper ∧ m.text <:+: cs := by
  induction cs with
  | nil => cases h
  | cons c cs ih =>
    rw [find?] at h
    split at h
    · next hfront =>
      cases h
      exact (of_front? hfront).imp_right fun h => h.isInfix
    · exact (ih h).imp_right fun h => h.trans (suffix_cons c cs).isInfix

theorem two_le_count_text (m : Marker) : 2 ≤ m.text.count '\x7d' := by
  simp only [text, count_cons, count_append, count_nil, beq_self_eq_true, if_true]
  omega

def filling (m : Marker) (value : List String → Except Flaw (List Char)) :
    Except Flaw (List Char) := do
  value (← (shellWords (String.ofList m.inner)).mapError .fault)

end Marker

inductive Pass (value : List String → Except Flaw (List Char)) : List Char → List Char → Prop
  | fill {text new : List Char} {m : Marker} : Marker.find? text = some m →
    m.filling value = .ok new → Pass value text (replaceAll m.text new text)

section

variable {value : List String → Except Flaw (List Char)}
  (hvalue : ∀ words new, value words = .ok new → '\x7d' ∉ new)

include hvalue

theorem Pass.count_add_two_le (hpass : Pass value text text') :
    text'.count '\x7d' + 2 ≤ text.count '\x7d' := by
  cases hpass with
  | @fill new m hfind hnew =>
    obtain ⟨words, -, hwords⟩ := bind_eq_ok.1 hnew
    have := count_replaceAll_add_le (hvalue words new hwords) (by simp [Marker.text])
      (Marker.of_find? hfind).2
    have := m.two_le_count_text
    omega

theorem fill_passes (budget : Nat) (text : List Char) (hbudget : text.count '\x7d' ≤ budget) :
    ∃ last, Relation.ReflTransGen (Pass value) text last ∧
      (Marker.find? last = none ∧ fill value budget text = .ok last ∨
        ∃ m flaw, Marker.find? last = some m ∧ m.filling value = .error flaw ∧
          fill value budget text = .error flaw) := by
  fun_induction fill value budget text with
  | case1 budget text hfind => exact ⟨text, .refl, .inl ⟨hfind, rfl⟩⟩
  | case2 text m hfind =>
    have := (Marker.of_find? hfind).2.sublist.count_le '\x7d'
    have := m.two_le_count_text
    omega
  | case3 text m budget hfind ih =>
    simp only [← bind_assoc]
    change ∃ last, _ ∧
      (_ ∧ (m.filling value >>= _) = _ ∨ ∃ _ _, _ ∧ _ ∧ (m.filling value >>= _) = _)
    cases hnew : m.filling value with
    | error flaw => exact ⟨text, .refl, .inr ⟨m, flaw, hfind, hnew, rfl⟩⟩
    | ok new =>
      have hpass := Pass.fill hfind hnew
      have := hpass.count_add_two_le hvalue
      obtain ⟨last, hsteps, hlast⟩ := ih new (by omega)
      exact ⟨last, .head hpass hsteps, hlast⟩

end

theorem exists_of_argument {args words : List String} {new : List Char}
    (h : argument args words = .ok new) : ∃ w ∈ args, new = w.toList := by
  rw [argument] at h
  split at h
  · cases h
  obtain ⟨indices, -, h⟩ := bind_eq_ok.1 h
  split at h
  · next w hw =>
    cases h
    obtain ⟨i, -, hi⟩ := Option.bind_eq_some_iff.1 hw
    exact ⟨w, of_ite hi mem_of_getElem? (by simp), rfl⟩
  · cases h

/-- The arguments of a marker are put into a component in at most half as many passes as it has
closing braces, whatever markers come of them. In the end no marker is left, or there is one that no
argument can be had for. -/
theorem fillArguments_terminates (line : List Char) (m : Marker) (args : List String)
    (hm : Marker.find? line = some m)
    (hargs : shellWords (String.ofList m.inner) = .ok args) (text : List Char) :
    (∀ texts, (text :: texts).IsChain (Pass (argument args)) →
      texts.length ≤ text.count '\x7d' / 2) ∧
    ∃ last, Relation.ReflTransGen (Pass (argument args)) text last ∧
      ((∀ m : Marker, m.Proper → ¬ m.text <:+: last) ∧ fillArguments args text = .ok last ∨
        ∃ m flaw, Marker.find? last = some m ∧ m.filling (argument args) = .error flaw ∧
          fillArguments args text = .error flaw) := by
  have hvalue : ∀ words new, argument args words = .ok new → '\x7d' ∉ new := by
    intro words new h
    obtain ⟨w, hw, rfl⟩ := exists_of_argument h
    have hinner := (Marker.of_find? hm).1.inner.2
    exact notMem_shellWordsFrom (by decide) not_mem_nil (by simpa using hinner) hargs w hw
  constructor
  · intro texts hrun
    refine length_le_rank (fun text => text.count '\x7d' / 2) (fun x y hpass => ?_) hrun
    have := hpass.count_add_two_le hvalue
    omega
  · obtain ⟨last, hsteps, ⟨hnone, hok⟩ | hflaw⟩ :=
      fill_passes hvalue (text.count '\x7d') text (Nat.le_refl _)
    · exact ⟨last, hsteps, .inl ⟨fun m => Marker.not_infix_of_find? hnone, hok⟩⟩
    · exact ⟨last, hsteps, .inr hflaw⟩

theorem fillArguments_terminates_opened :
    shellWords "a \x7b\x7b" = .ok ["a", "\x7b\x7b"] ∧
    (∀ texts, ("\x7b\x7b $1 \x7d\x7d $0 \x7d\x7d".toList :: texts).IsChain
      (Pass (argument ["a", "\x7b\x7b"])) → texts.length ≤ 2) ∧
    fillArguments ["a", "\x7b\x7b"] "\x7b\x7b $1 \x7d\x7d $0 \x7d\x7d".toList = .ok "a".toList :=
  ⟨rfl, (fillArguments_terminates "\x7b\x7b a \x7b\x7b \x7d\x7d".toList _ _ rfl rfl _).1,
    eq_ok_of_toOption (by decide +kernel)⟩

end Site

end Jumpcut
