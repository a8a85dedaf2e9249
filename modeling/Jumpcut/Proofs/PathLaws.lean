import Jumpcut.Workspace.Basic

namespace Jumpcut.Path

open List String

def IsName (n : String) : Prop := '/' ∉ n.toList ∧ n ≠ "" ∧ n ≠ "." ∧ n ≠ ".."

instance (n : String) : Decidable (IsName n) := by unfold IsName; infer_instance

variable {n p : String}

theorem resolve_concat (hn : IsName n) (rooted : Bool) (done ps : List String) :
    resolve rooted done (ps ++ [n]) = resolve rooted done ps ++ [n] := by
  fun_induction resolve rooted done ps with
  | case1 done =>
    rw [nil_append, resolve, resolve, reverse_cons]
    · exact hn.2.1
    · exact hn.2.2.1
    · exact hn.2.2.2
  | case2 done ps ih => rw [cons_append, resolve, ih]
  | case3 done ps ih => rw [cons_append, resolve, ih]
  | case4 ps ih => rw [cons_append, resolve, ih]
  | case5 ps ds ih => rw [cons_append, resolve, ih]
  | case6 ps d ds hd ih => rw [cons_append, resolve, ih]; exact hd
  | case7 done p ps h1 h2 h3 ih => rw [cons_append, resolve, ih] <;> assumption

def names (p : String) : List String := resolve true [] ((p.toList.splitOn '/').map ofList)

theorem names_child (hn : IsName n) (p : String) : names (p ++ "/" ++ n) = names p ++ [n] := by
  have hchars : (p ++ "/" ++ n).toList = p.toList ++ '/' :: n.toList := by simp
  rw [names, hchars, splitOn_append_cons_self, splitOn_eq_singleton hn.1, map_append,
    map_singleton, ofList_toList, resolve_concat hn]
  rfl

def front (p : String) : String :=
  let slashes := (p.toList.takeWhile (· = '/')).length
  if slashes = 0 then "" else if slashes = 2 then "//" else "/"

theorem isAbsolute_iff (p : String) : isAbsolute p ↔ ∃ cs, p.toList = '/' :: cs := by
  rw [isAbsolute, startsWith_string_iff]
  exact exists_congr fun cs => eq_comm

theorem isAbsolute_append (hp : p ≠ "") (q : String) : isAbsolute (p ++ q) = isAbsolute p := by
  rw [Bool.eq_iff_iff, isAbsolute_iff, isAbsolute_iff, toList_append]
  cases hcs : p.toList with
  | nil => exact absurd (toList_eq_nil_iff.1 hcs) hp
  | cons c cs => simp

theorem ne_empty_of_isAbsolute (h : isAbsolute p) : p ≠ "" := by
  obtain ⟨cs, hcs⟩ := (isAbsolute_iff p).1 h
  intro hempty
  simp [hempty] at hcs

theorem normalize_of_isAbsolute (h : isAbsolute p) :
    normalize p = front p ++ "/".intercalate (names p) := by
  obtain ⟨cs, hcs⟩ := (isAbsolute_iff p).1 h
  have hslashes : (p.toList.takeWhile (· = '/')).length ≠ 0 := by
    rw [hcs, takeWhile_cons_of_pos (by decide)]
    simp
  have hfront : front p ≠ "" := by
    rw [front, if_neg hslashes]
    split <;> decide
  rw [normalize, decide_eq_true hslashes, if_neg]
  · rfl
  · exact fun hempty => hfront hempty.1

theorem front_append (h : ∃ c ∈ p.toList, c ≠ '/') (q : String) : front (p ++ q) = front p := by
  obtain ⟨c, hmem, hc⟩ := h
  have htake : ((p ++ q).toList.takeWhile (· = '/')) = p.toList.takeWhile (· = '/') := by
    rw [toList_append, takeWhile_append, if_neg]
    intro hall
    have hself := ( takeWhile_prefix _).eq_of_length hall
    exact hc (of_decide_eq_true (all_eq_true.1 all_takeWhile c (hself.symm ▸ hmem)))
  rw [front, htake]
  rfl

theorem dir_append {cs : List Char} {c : Char} (hp : p.toList = cs ++ [c]) (hc : c ≠ '/')
    (hn : '/' ∉ n.toList) : dir (p ++ "/" ++ n) = p := by
  have htail : (p ++ "/" ++ n).toList.reverse.takeWhile (· ≠ '/') = n.toList.reverse := by
    have hchars : (p ++ "/" ++ n).toList.reverse = n.toList.reverse ++ '/' :: p.toList.reverse := by
      simp
    rw [hchars, takeWhile_append_of_pos, takeWhile_cons_of_neg (by simp), append_nil]
    intro a ha
    have hne : a ≠ '/' := fun heq => hn (heq ▸ mem_reverse.1 ha)
    simpa using hne
  have hhead : (cut (p ++ "/" ++ n).toList).1 = p.toList ++ ['/'] := by
    have hchars : (p ++ "/" ++ n).toList = (p.toList ++ ['/']) ++ n.toList := by simp
    rw [cut, htail, reverse_reverse, hchars]
    exact take_left' (by simp; omega)
  rw [dir, hhead, if_neg, reverse_append]
  · simp [hp, hc, ← toList_inj]
  · simp [hp, hc]

theorem IsName.ne_slash (hn : IsName n) {c : Char} (hc : c ∈ n.toList) : c ≠ '/' :=
  fun heq => hn.1 (heq ▸ hc)

theorem IsName.exists_concat (hn : IsName n) : ∃ cs c, n.toList = cs ++ [c] ∧ c ≠ '/' := by
  rcases eq_nil_or_concat n.toList with hnil | ⟨cs, c, hcs⟩
  · exact absurd (toList_eq_nil_iff.1 hnil) hn.2.1
  · rw [concat_eq_append] at hcs
    exact ⟨cs, c, hcs, hn.ne_slash (hcs ▸ by simp)⟩

section Child

variable {d p m n : String} (habs : isAbsolute d) (hd : d = p ++ "/" ++ m) (hm : IsName m)
include habs hd hm

theorem normalize_child (hn : IsName n) : normalize (d ++ "/" ++ n) = normalize d ++ "/" ++ n := by
  have hnames : names d ≠ [] := by simp [hd, names_child hm]
  have hslash : ∃ c ∈ d.toList, c ≠ '/' := by
    obtain ⟨cs, c, hcs, hc⟩ := hm.exists_concat
    exact ⟨c, by simp [hd, hcs], hc⟩
  have habs' : isAbsolute (d ++ ("/" ++ n)) := by
    rwa [isAbsolute_append (ne_empty_of_isAbsolute habs)]
  rw [String.append_assoc, normalize_of_isAbsolute habs', front_append hslash,
    ← String.append_assoc, names_child hn, normalize_of_isAbsolute habs,
    String.intercalate_append_of_ne_nil hnames (by simp), String.intercalate_singleton]
  simp only [String.append_assoc]

theorem normalize_concat : ∃ cs c, (normalize d).toList = cs ++ [c] ∧ c ≠ '/' := by
  obtain ⟨cs, c, hcs, hc⟩ := hm.exists_concat
  rw [normalize_of_isAbsolute habs]
  by_cases hnil : names p = []
  · refine ⟨(front d).toList ++ cs, c, ?_, hc⟩
    simp [hd, names_child hm, hnil, hcs]
  · refine ⟨(front d ++ "/".intercalate (names p) ++ "/").toList ++ cs, c, ?_, hc⟩
    rw [hd, names_child hm, intercalate_append_of_ne_nil hnil (by simp),
      String.intercalate_singleton]
    simp [hcs]

theorem dir_normalize_child (hn : IsName n) : dir (normalize (d ++ "/" ++ n)) = normalize d := by
  obtain ⟨cs, c, hcs, hc⟩ := normalize_concat habs hd hm
  rw [normalize_child habs hd hm hn, dir_append hcs hc hn.1]

theorem normalize_child_ne (hn : IsName n) : normalize (d ++ "/" ++ n) ≠ normalize d := by
  intro heq
  have hlength := congrArg String.length heq
  rw [normalize_child habs hd hm hn] at hlength
  rw [String.length_append, String.length_append] at hlength
  have hone : "/".length = 1 := rfl
  omega

end Child

theorem isAbsolute_join {cwd : String} (hcwd : isAbsolute cwd) (p : String) :
    isAbsolute (join cwd p) := by
  rw [join]
  have hne := ne_empty_of_isAbsolute hcwd
  split
  · assumption
  · split
    · rwa [isAbsolute_append hne]
    · rwa [String.append_assoc, isAbsolute_append hne]

theorem endsWith_slash_iff (p : String) : p.endsWith "/" ↔ ∃ q, p = q ++ "/" := by
  rw [endsWith_eq_endsWith_toSlice, Slice.endsWith_string_iff, copy_toSlice]
  constructor
  · rintro ⟨cs, hcs⟩
    exact ⟨ofList cs, by simp [← toList_inj, ← hcs]⟩
  · rintro ⟨q, rfl⟩
    rw [toList_append]
    exact suffix_append ..

theorem IsName.not_isAbsolute (hn : IsName n) : ¬ isAbsolute n := by
  rw [isAbsolute_iff]
  rintro ⟨cs, hcs⟩
  exact hn.1 (hcs ▸ .head _)

theorem exists_join_name (hp : p ≠ "") (hn : IsName n) : ∃ q, join p n = q ++ "/" ++ n := by
  rw [join, if_neg hn.not_isAbsolute]
  by_cases hslash : p.endsWith "/"
  · rw [if_pos (.inr hslash)]
    obtain ⟨q, rfl⟩ := (endsWith_slash_iff p).1 hslash
    exact ⟨q, rfl⟩
  · rw [if_neg (not_or.2 ⟨hp, hslash⟩)]
    exact ⟨p, rfl⟩

theorem exists_join_append (p q : String) : ∃ a, join p q = a ++ q := by
  rw [join]
  split
  · exact ⟨"", by simp⟩
  · split
    · exact ⟨p, rfl⟩
    · exact ⟨p ++ "/", rfl⟩

theorem join_append_of_ne {q : String} (hq : q ≠ "") (p a : String) :
    join p (q ++ a) = join p q ++ a := by
  rw [join, join, isAbsolute_append hq]
  split
  · rfl
  · split <;> simp only [String.append_assoc]

section Place

variable {cwd : String} (hcwd : isAbsolute cwd) (p : String) {m n : String} (hm : IsName m)
  (hn : IsName n)
include hm hn

theorem join_name_name : join (join p m) n = join p m ++ "/" ++ n := by
  obtain ⟨a, ha⟩ := exists_join_append p m
  obtain ⟨cs, c, hcs, hc⟩ := hm.exists_concat
  have hlast : (join p m).toList = (a.toList ++ cs) ++ [c] := by simp [ha, hcs]
  have hne : join p m ≠ "" := by
    intro hempty
    simp [hempty] at hlast
  have hslash : ¬ (join p m).endsWith "/" := by
    rw [endsWith_slash_iff]
    rintro ⟨q, hq⟩
    rw [hq, toList_append] at hlast
    exact hc (singleton_inj.1 (append_inj_right' hlast rfl)).symm
  rw [join, if_neg hn.not_isAbsolute, if_neg (not_or.2 ⟨hne, hslash⟩)]

include hcwd

theorem exists_absolute_names : ∃ d q, isAbsolute d ∧ d = q ++ "/" ++ m ∧
    absolute cwd (join p m) = normalize d ∧
    absolute cwd (join (join p m) n) = normalize (d ++ "/" ++ n) := by
  have hne : join p m ≠ "" := by
    obtain ⟨a, ha⟩ := exists_join_append p m
    intro hempty
    exact hm.2.1 (append_eq_empty_iff.1 (ha.symm.trans hempty)).2
  have hend : ∃ q, join cwd (join p m) = q ++ "/" ++ m := by
    by_cases hp : p = ""
    · have hjoin : join p m = m := by
        rw [join, if_neg hm.not_isAbsolute, if_pos (.inl hp), hp, empty_append]
      rw [hjoin]
      exact exists_join_name (ne_empty_of_isAbsolute hcwd) hm
    · obtain ⟨q, hq⟩ := exists_join_name hp hm
      obtain ⟨a, ha⟩ := exists_join_append cwd (join p m)
      exact ⟨a ++ q, by rw [ha, hq]; simp only [String.append_assoc]⟩
  obtain ⟨q, hq⟩ := hend
  refine ⟨join cwd (join p m), q, isAbsolute_join hcwd _, hq, rfl, ?_⟩
  rw [absolute, join_name_name p hm hn, String.append_assoc, join_append_of_ne hne,
    String.append_assoc]

theorem dir_absolute_join : dir (absolute cwd (join (join p m) n)) = absolute cwd (join p m) := by
  obtain ⟨d, q, habs, hd, hdir, hfile⟩ := exists_absolute_names hcwd p hm hn
  rw [hfile, hdir, dir_normalize_child habs hd hm hn]

theorem absolute_join_ne : absolute cwd (join (join p m) n) ≠ absolute cwd (join p m) := by
  obtain ⟨d, q, habs, hd, hdir, hfile⟩ := exists_absolute_names hcwd p hm hn
  rw [hfile, hdir]
  exact normalize_child_ne habs hd hm hn

end Place

end Jumpcut.Path
