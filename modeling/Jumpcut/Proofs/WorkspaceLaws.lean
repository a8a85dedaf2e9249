import Jumpcut.Proofs.OutcomeLaws

namespace Jumpcut

open Outcome

variable {β : Type}

section

variable (xs : List (String × β))

theorem lookup_pair_cons (k n : String) (v : β) :
    ((k, v) :: xs).lookup n = if n = k then some v else xs.lookup n := by
  rw [List.lookup_cons]
  by_cases h : n = k
  · simp [h]
  · rw [beq_false_of_ne h, if_neg h]

theorem lookup_replace (k n : String) (v : β) :
    (xs.map fun x => if x.1 == k then (k, v) else x).lookup n =
      if n = k then (xs.lookup k).map fun _ => v else xs.lookup n := by
  induction xs with
  | nil => simp
  | cons x xs ih =>
    obtain ⟨m, u⟩ := x
    rw [List.map_cons]
    by_cases hm : m = k
    · subst hm
      simp only [beq_self_eq_true, if_true, lookup_pair_cons, ih]
      split <;> rfl
    · rw [if_neg (by simpa using hm), lookup_pair_cons, ih, lookup_pair_cons, lookup_pair_cons,
        if_neg (Ne.symm hm)]
      by_cases hn : n = k
      · rw [if_pos hn, if_neg (hn ▸ Ne.symm hm), if_pos hn]
      · rw [if_neg hn, if_neg hn]

theorem lookup_filter_ne (t n : String) :
    (xs.filter (·.1 != t)).lookup n = if n = t then none else xs.lookup n := by
  induction xs with
  | nil => simp
  | cons x xs ih =>
    obtain ⟨m, v⟩ := x
    by_cases hm : m = t
    · subst hm
      rw [List.filter_cons_of_neg (by simp), ih, lookup_pair_cons]
      split <;> rfl
    · rw [List.filter_cons_of_pos (by simpa using hm), lookup_pair_cons, lookup_pair_cons, ih]
      by_cases hn : n = m
      · rw [if_pos hn, if_pos hn, if_neg (hn ▸ hm)]
      · rw [if_neg hn, if_neg hn]

theorem isSome_lookup (k : String) : (xs.lookup k).isSome = xs.any (·.1 == k) := by
  induction xs with
  | nil => rfl
  | cons x xs ih =>
    rw [lookup_pair_cons, List.any_cons, ← ih]
    by_cases h : k = x.1
    · simp [h]
    · rw [if_neg h, beq_false_of_ne (Ne.symm h), Bool.false_or]

theorem lookup_put (k n : String) (v : β) :
    (if xs.any (·.1 == k) then xs.map fun x => if x.1 == k then (k, v) else x
      else xs ++ [(k, v)]).lookup n = if n = k then some v else xs.lookup n := by
  rw [← isSome_lookup]
  split
  · next h =>
    obtain ⟨u, hu⟩ := Option.isSome_iff_exists.1 h
    rw [lookup_replace, hu, Option.map_some]
  · next h =>
    rw [List.lookup_append, lookup_pair_cons, List.lookup_nil]
    by_cases hn : n = k
    · rw [hn, Option.not_isSome_iff_eq_none.1 h, Option.none_or, if_pos rfl]
    · rw [if_neg hn, if_neg hn, Option.or_none]

end

namespace Tree

theorem read?_put (t : Tree) (p q : String) (b : ByteArray) :
    (t.put p b).read? q = if q = p then some b else t.read? q := by
  have hput := lookup_put t.files p q b
  rw [← isSome_lookup] at hput
  rw [put]
  split
  · next h =>
    rw [if_pos (show (t.files.lookup p).isSome from h)] at hput
    exact hput
  · next h =>
    rw [if_neg (show ¬ (t.files.lookup p).isSome from h)] at hput
    exact hput

theorem isDir_put (t : Tree) (p q : String) (b : ByteArray) : (t.put p b).isDir q = t.isDir q := by
  rw [put]
  split <;> rfl

theorem isFile_put (t : Tree) {p q : String} (b : ByteArray) (h : t.isFile q) :
    (t.put p b).isFile q := by
  rw [isFile, read?_put]
  split
  · rfl
  · exact h

end Tree

theorem fromUTF8?_toUTF8 (s : String) : String.fromUTF8? s.toUTF8 = some s := by
  rw [String.fromUTF8?, String.toUTF8_eq_toByteArray, dif_pos s.isValidUTF8]
  rfl

namespace Session

variable {p : String} {w : Workspace}

theorem writeText_ok (s : String) (hdir : w.tree.isDir (Path.dir (absolutePath p)))
    (hnew : ¬ w.tree.isDir (absolutePath p)) :
    writeText p s w = .ok () { w with tree := w.tree.put (absolutePath p) s.toUTF8 } := by
  have hplace : (w.tree.isDir (Path.dir (absolutePath p)) && !w.tree.isDir (absolutePath p)) =
      true := by simp [hdir, hnew]
  simp only [writeText, writeBytes, run_bind_eq_ok]
  refine ⟨w, w, rfl, ?_⟩
  rw [if_pos hplace]
  rfl

theorem read?_of_writeText {s : String} {w' : Workspace} (h : writeText p s w = .ok () w') :
    w'.tree.read? (absolutePath p) = some s.toUTF8 := by
  simp only [writeText, writeBytes, run_bind_eq_ok] at h
  obtain ⟨a, w₁, hget, h⟩ := h
  cases hget
  split at h
  · cases h
    rw [Tree.read?_put, if_pos rfl]
  · exact absurd h run_throw_ne_ok

theorem readBytes_ok {b : ByteArray} (h : w.tree.read? (absolutePath p) = some b) :
    readBytes p w = .ok b w := by
  simp only [readBytes, run_bind_eq_ok]
  refine ⟨w, w, rfl, ?_⟩
  rw [h]
  rfl

theorem readText_ok {s : String} (h : w.tree.read? (absolutePath p) = some s.toUTF8) :
    readText p w = .ok (String.ofList (Text.unifyLines s.toList)) w := by
  simp only [readText, run_bind_eq_ok]
  refine ⟨s.toUTF8, w, readBytes_ok h, ?_⟩
  rw [fromUTF8?_toUTF8]
  rfl

end Session

end Jumpcut
