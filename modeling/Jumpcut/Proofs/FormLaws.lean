import Jumpcut.Proofs.DecimalLaws
import Jumpcut.Proofs.XmlLaws
import Jumpcut.Xml.Form

namespace Jumpcut

open Outcome Decimal

namespace Xml

theorem indentedAll_eq_map (depth : Nat) (cs : List Xml) :
    indentedAll depth cs = cs.map (indented depth) := by
  induction cs with
  | nil => rfl
  | cons c cs ih => rw [indentedAll, ih, List.map_cons]

@[simp] theorem tag_indented (depth : Nat) (x : Xml) : (x.indented depth).tag = x.tag := by
  rcases x with ⟨tag, as, text, _ | ⟨c, cs⟩⟩ <;> rw [indented] <;> rfl

@[simp] theorem attr?_indented (depth : Nat) (x : Xml) (name : String) :
    (x.indented depth).attr? name = x.attr? name := by
  rcases x with ⟨tag, as, text, _ | ⟨c, cs⟩⟩ <;> rw [indented] <;> rfl

@[simp] theorem children_indented (depth : Nat) (x : Xml) :
    (x.indented depth).children = x.children.map (indented (depth + 1)) := by
  rcases x with ⟨tag, as, text, _ | ⟨c, cs⟩⟩
  · rw [indented]
    rfl
  · rw [indented, indentedAll_eq_map]
    rfl

theorem text_indented_leaf (depth : Nat) (tag text : String) :
    ((leaf tag text).indented depth).text = if text = "" then none else some text := by
  rw [leaf, indented]
  by_cases h : text = "" <;> simp [h, Xml.text]

theorem read_eq_readAll (fields : List (String × Form)) (x : Xml) :
    read fields x = readAll fields (emptyLists fields) x.children := by
  rcases x with ⟨tag, as, text, cs⟩
  rw [read, children]

variable {fields : List (String × Form)} {done : Fields}

section

variable (tag : String) {x : Xml} (hx : x.tag = tag)

include hx

theorem readAll_leaf {l : Leaf} {v : Value} (h : fields.lookup tag = some (.leaf l))
    (hread : l.read x.text = .ok v) (hnew : done.any (·.1 == tag) = false) (xs : List Xml) :
    readAll fields done (x :: xs) = readAll fields (done ++ [(tag, v)]) xs := by
  rw [readAll, hx, h]
  simp only [hread, ok_bind, Fields.putOnce, hnew, Bool.false_eq_true, if_false]

theorem readAll_group {inner : List (String × Form)} {g : Fields}
    (h : fields.lookup tag = some (.group false inner)) (hread : read inner x = .ok g)
    (hnew : done.any (·.1 == tag) = false) (xs : List Xml) :
    readAll fields done (x :: xs) = readAll fields (done ++ [(tag, .group g)]) xs := by
  rw [readAll, hx, h]
  simp only [hread, ok_bind, Fields.putOnce, hnew, Bool.false_eq_true, if_false]

theorem readAll_keep (h : fields.lookup tag = some .keep)
    (hnew : done.any (·.1 == tag) = false) (xs : List Xml) :
    readAll fields done (x :: xs) = readAll fields (done ++ [(tag, .element x)]) xs := by
  rw [readAll, hx, h]
  simp only [Fields.put, hnew, Bool.false_eq_true, if_false]

theorem readAll_other (h : fields.lookup tag = none) (xs : List Xml) :
    readAll fields done (x :: xs) = readAll fields done xs := by
  rw [readAll, hx, h]

end

theorem readAll_others {xs : List Xml} (h : ∀ x ∈ xs, fields.lookup x.tag = none) :
    readAll fields done xs = .ok done := by
  induction xs with
  | nil => rw [readAll]
  | cons x xs ih =>
    obtain ⟨hx, hxs⟩ := List.forall_mem_cons.1 h
    rw [readAll_other x.tag rfl hx, ih hxs]

theorem readAll_push {tag : String} {inner : List (String × Form)}
    (h : fields.lookup tag = some (.group true inner)) {xs : List Xml} {gs : List Fields}
    (hread : List.Forall₂ (fun x g => x.tag = tag ∧ read inner x = .ok g) xs gs)
    (hdone : done.any (·.1 == tag) = false) (vs : List Fields) :
    readAll fields ((tag, .list vs) :: done) xs = .ok ((tag, .list (vs ++ gs)) :: done) := by
  induction hread generalizing vs with
  | nil => rw [readAll, List.append_nil]
  | @cons x g xs gs hx _ ih =>
    have hkeep : (done.map fun f => if f.1 = tag then (tag, Value.list (vs ++ [g])) else f) =
        done := by
      simp only [List.any_eq_false, beq_iff_eq] at hdone
      exact (List.map_congr_left fun f hf => if_neg (hdone f hf)).trans (List.map_id' done)
    have hpush : Fields.push ((tag, .list vs) :: done) tag g =
        (tag, .list (vs ++ [g])) :: done := by
      simpa [Fields.push, Fields.put] using hkeep
    rw [readAll, hx.1, h]
    simp only [hx.2, ok_bind, if_true, hpush]
    rw [ih, List.append_assoc, List.singleton_append]

theorem text_indented_int (depth : Nat) (tag : String) (n : Int) :
    ((leaf tag (toString n)).indented depth).text = some (toString n) := by
  rw [text_indented_leaf, if_neg]
  obtain ⟨neg, htext, -⟩ := exists_sign n
  simp [htext, Nat.toDigits_ne_nil]

theorem read_int {n : Int} (h : Number.isWritable n) (depth : Nat) (tag : String) :
    Leaf.int.read ((leaf tag (toString n)).indented depth).text = .ok (.int n) := by
  rw [text_indented_int, Leaf.read, int?_toString h]

theorem read_fraction {n : Int} (h : Number.isWritable n) (depth : Nat) (tag : String) :
    Leaf.fraction.read ((leaf tag (toString n)).indented depth).text = .ok (.fraction n) := by
  rw [text_indented_int, Leaf.read, Setting.fraction, fraction?_toString h]
  rfl

theorem read_truth (b : Bool) (depth : Nat) (tag : String) :
    Leaf.truth.read ((leaf tag (if b then "TRUE" else "FALSE")).indented depth).text =
      .ok (.truth b) := by
  rw [text_indented_leaf]
  cases b <;> simp [Leaf.read]

end Xml

end Jumpcut
