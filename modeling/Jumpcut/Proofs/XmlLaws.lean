import Mathlib.Data.List.Basic
import Jumpcut.Proofs.MarkupLaws

namespace Jumpcut.Xml

open List Open Reading

/-- Reading goes from one state to another along a text, whatever fuel it is given. -/
def Leads (cs : List Char) (r r' : Reading) : Prop :=
  ∀ n, cs.length ≤ n → ((marks n cs).bind fun ms => ms.foldlM step r) = some r'

theorem leads_nil (r : Reading) : Leads [] r r := by
  intro n _
  cases n <;> rfl

variable {r r₁ r' : Reading} {cs rest : List Char} {s tag : String} {as : List (String × String)}
  {c x : Xml} {depth : Nat} {xs : List Xml}

theorem marks_of_mark {n : Nat} {m : Mark} (hne : cs ≠ [])
    (h : mark (n + 1) cs = some (some m, rest)) :
    marks (n + 1) cs = (marks n rest).map (m :: ·) := by
  rw [marks]
  · simp [h, bind_some_eq_map]
  · exact hne

theorem Leads.of_mark {front : List Char} {m : Mark} (hne : front ≠ [])
    (hmark : ∀ n, front.length ≤ n → mark n (front ++ rest) = some (some m, rest))
    (hstep : r.step m = some r₁) (h : Leads rest r₁ r') : Leads (front ++ rest) r r' := by
  intro n hn
  rw [length_append] at hn
  have hpos := length_pos_iff.2 hne
  obtain ⟨n, rfl⟩ := Nat.exists_eq_add_one_of_ne_zero (show n ≠ 0 by omega)
  have hrest := h n (by omega)
  rw [marks_of_mark (append_ne_nil_of_left_ne_nil hne rest) (hmark _ (by omega)),
    Option.bind_map]
  simpa [Function.comp_def, foldlM_cons, hstep] using hrest

def Open.hear (o : Open) (cs : List Char) : Open :=
  if o.children.isEmpty then { o with text := cs.reverse ++ o.text } else o

theorem Open.hear_append (o : Open) (as bs : List Char) :
    (o.hear as).hear bs = o.hear (as ++ bs) := by
  by_cases h : o.children.isEmpty <;> simp [hear, h]

theorem step_text (o : Open) (os : List Open) (root : Option Xml) (d plain : Bool)
    (cs : List Char) :
    step ⟨o :: os, root, d⟩ (.text plain cs) = some ⟨o.hear cs :: os, root, d⟩ := rfl

variable {o : Open} {os : List Open} {root : Option Xml} {d : Bool}

theorem Leads.plain {c : Char} (hc : isPlain c) (hmore : c ≠ '>')
    (hrest : '>' ∉ rest.takeWhile isPlain) (h : Leads rest ⟨o.hear [c] :: os, root, d⟩ r') :
    Leads (c :: rest) ⟨o :: os, root, d⟩ r' := by
  have hrun : (c :: rest).takeWhile isPlain = c :: rest.takeWhile isPlain := by
    rw [takeWhile_cons, if_pos hc]
  have hdrop : (c :: rest).dropWhile isPlain = rest.dropWhile isPlain := by
    rw [dropWhile_cons, if_pos hc]
  have hmark : ∀ n, mark n (c :: rest) =
      some (some (.text true (c :: rest.takeWhile isPlain)), rest.dropWhile isPlain) := by
    intro n
    rw [mark_text, hrun, hdrop]
    · simpa using hc
    · rw [hrun, mem_cons, not_or]
      exact ⟨Ne.symm hmore, hrest⟩
  intro n hn
  obtain ⟨n, rfl⟩ := Nat.exists_eq_add_one_of_ne_zero (show n ≠ 0 by rintro rfl; simp at hn)
  rw [marks_of_mark (cons_ne_nil c rest) (hmark _)]
  by_cases hnext : ∃ a as, rest = a :: as ∧ isPlain a
  · obtain ⟨a, as, rfl, ha⟩ := hnext
    have hlead := h (n + 1) (by simp at hn ⊢; omega)
    rw [marks_of_mark (cons_ne_nil a as) (mark_text (by simpa using ha) hrest _)] at hlead
    simpa [Function.comp_def, Option.bind_map, step_text, hear_append] using hlead
  · have hhead : ∀ a ∈ rest.head?, ¬ isPlain a := by
      intro a ha hplain
      obtain ⟨as, rfl⟩ := head?_eq_some_iff.1 ha
      exact hnext ⟨a, as, rfl, hplain⟩
    obtain ⟨htake, hafter⟩ := takeWhile_dropWhile_of_head hhead
    have hlead := h n (by simpa using hn)
    rw [htake, hafter]
    simpa [Function.comp_def, Option.bind_map, step_text] using hlead

theorem Written.not_mem {c : Char} (h : Written c cs) : '>' ∉ cs := by
  cases h with
  | plain hamp hless hmore => simpa using Ne.symm hmore
  | @reference r hchars h =>
    intro hmem
    simp only [cons_append, mem_cons, mem_append, not_mem_nil, or_false,
      Char.reduceEq, false_or] at hmem
    exact not_mem_reference hchars (by decide) hmem

theorem not_mem_run (t rest : List Char) :
    '>' ∉ ((t.flatMap fun c => (escapeChar c).toList) ++ '<' :: rest).takeWhile isPlain := by
  have hall : '>' ∉ t.flatMap fun c => (escapeChar c).toList := by
    rw [mem_flatMap]
    rintro ⟨c, -, hc⟩
    exact (written_escapeChar c).not_mem hc
  have hstop : ('<' :: rest).takeWhile isPlain = [] := rfl
  rw [takeWhile_append, hstop, append_nil]
  split
  · exact hall
  · exact fun hmem => hall ((takeWhile_sublist _).subset hmem)

theorem Leads.written {c : Char} (hc : Written c cs) (hrest : '>' ∉ rest.takeWhile isPlain)
    (h : Leads rest ⟨o.hear [c] :: os, root, d⟩ r') : Leads (cs ++ rest) ⟨o :: os, root, d⟩ r' := by
  cases hc with
  | plain hamp hless hmore => exact Leads.plain (by simp [isPlain, hamp, hless]) hmore hrest h
  | @reference r hchars href =>
    refine Leads.of_mark (by simp) (fun n _ => ?_) (step_text o os root d false [c]) h
    rw [append_assoc]
    exact mark_reference (not_mem_reference hchars (by decide)) href rest n

theorem Leads.text {t : List Char} (h : Leads ('<' :: rest) ⟨o.hear t :: os, root, d⟩ r') :
    Leads ((t.flatMap fun c => (escapeChar c).toList) ++ '<' :: rest) ⟨o :: os, root, d⟩ r' := by
  induction t generalizing o with
  | nil =>
    have ho : o.hear [] = o := by
      simp [hear]
    rwa [ho] at h
  | cons c t ih =>
    rw [show c :: t = [c] ++ t from rfl, ← hear_append] at h
    rw [flatMap_cons, append_assoc]
    exact (ih h).written (written_escapeChar c) (not_mem_run t rest)

theorem escape_newline (n : Nat) :
    ((newline n).toList.flatMap fun c => (escapeChar c).toList) = (newline n).toList := by
  have htabs : ∀ n, ((List.replicate n '\t').flatMap fun c => (escapeChar c).toList) =
      List.replicate n '\t' := by
    intro n
    induction n with
    | zero => rfl
    | succ n ih => rw [replicate_succ, flatMap_cons, ih]; rfl
  simp only [newline, String.toList_append, String.toList_ofList, flatMap_append, htabs]
  rfl

def outerScope : List (String × String) := [("xml", xmlSpace)]

theorem expand_of_isPlainName (h : isPlainName s) (isAttr : Bool) :
    expand outerScope isAttr s = some s := by
  rw [expand, splitName, splitOn_eq_singleton (not_mem_of_isPlainName h)]
  cases isAttr <;> simp [outerScope]

theorem isBinding_of_isPlainName (h : isPlainName s) : isBinding s = false := by
  have hfront : s.startsWith "xmlns:" = false := by
    by_contra hfront
    rw [Bool.not_eq_false, String.startsWith_string_iff] at hfront
    exact not_mem_of_isPlainName h (hfront.subset (by decide))
  simp only [isPlainName, Bool.and_eq_true] at h
  simpa [isBinding, hfront] using h.1.1.1.2

theorem bindings_of_isPlainName (h : ∀ a ∈ as, isPlainName a.1) : bindings as = some [] := by
  rw [bindings]
  induction as with
  | nil => rfl
  | cons a as ih =>
    obtain ⟨ha, has⟩ := forall_mem_cons.1 h
    have hne : a.1 ≠ "xmlns" := by
      have hbinding := isBinding_of_isPlainName ha
      rintro heq
      simp [isBinding, heq] at hbinding
    rw [filterMapM_cons]
    simp only [if_neg hne]
    split
    · next heq =>
      have hcolon := not_mem_of_isPlainName ha
      simp [heq] at hcolon
    · exact ih has

theorem PlainTag.openTag (h : PlainTag tag as) :
    openTag outerScope tag as = some ⟨tag, tag, as, [], [], outerScope⟩ := by
  have hfilter : (as.filter fun a => !isBinding a.1) = as := by
    rw [filter_eq_self]
    intro a ha
    rw [isBinding_of_isPlainName (h.attrs a ha)]
    rfl
  have hexpand : ∀ bs : List (String × String), (∀ a ∈ bs, isPlainName a.1) →
      (bs.mapM fun a => (expand outerScope true a.1).bind fun n => some (n, a.2)) = some bs := by
    intro bs hbs
    induction bs with
    | nil => rfl
    | cons a bs ih =>
      obtain ⟨ha, hbs⟩ := forall_mem_cons.1 hbs
      simp [mapM_cons, expand_of_isPlainName ha, ih hbs]
  rw [Xml.openTag, bindings_of_isPlainName h.attrs]
  simp [h.distinct, hfilter, hexpand as h.attrs, expand_of_isPlainName h.name]

/-- A new element can be opened, and nothing but what is bound everywhere is bound. -/
def Ready (r : Reading) : Prop :=
  match r.stack with
  | [] => r.root = none
  | o :: _ => o.scope = outerScope

theorem PlainTag.step_opening (h : PlainTag tag as) (hr : Ready r) (closed : Bool) :
    r.step (.opening tag as closed) = some (if closed then r.add (.element tag as none []) else
      { r with stack := ⟨tag, tag, as, [], [], outerScope⟩ :: r.stack }) := by
  have hopen := h.openTag
  rcases r with ⟨_ | ⟨o, os⟩, root, doctype⟩
  · have hroot : root = none := hr
    subst hroot
    simp only [outerScope] at hopen
    simp [step, hopen, close, outerScope]
  · have hscope : o.scope = outerScope := hr
    simp [step, hscope, hopen, close]

mutual

/-- The element as it is read back: before children, blank text is what their lines begin with. -/
def indented (depth : Nat) : Xml → Xml
  | .element tag attrs text [] => .element tag attrs (if text = some "" then none else text) []
  | .element tag attrs text (c :: cs) =>
    .element tag attrs
      (some (if isBlank (text.getD "") then newline (depth + 1) else text.getD ""))
      (indentedAll (depth + 1) (c :: cs))

def indentedAll (depth : Nat) : List Xml → List Xml
  | [] => []
  | c :: cs => indented depth c :: indentedAll depth cs

end

mutual

def Printable : Xml → Prop
  | .element tag attrs text children =>
    PlainTag tag attrs ∧ (∀ t ∈ text, isText t) ∧ PrintableAll children

def PrintableAll : List Xml → Prop
  | [] => True
  | c :: cs => Printable c ∧ PrintableAll cs

end

theorem length_le_attrs (as : List (String × String)) :
    as.length ≤ (as.flatMap attrText).length := by
  induction as with
  | nil => exact Nat.le_refl 0
  | cons a as ih =>
    rw [flatMap_cons, length_append, attrText]
    simp only [length_cons, length_append]
    omega

theorem Leads.opening (htag : PlainTag tag as) (hr : Ready r) (closed : Bool)
    (h : Leads rest (if closed then r.add (.element tag as none []) else
      { r with stack := ⟨tag, tag, as, [], [], outerScope⟩ :: r.stack }) r') :
    Leads ((head tag as).toList ++ (tagEnd closed ++ rest)) r r' := by
  rw [← append_assoc]
  refine Leads.of_mark ?_ (fun n hn => ?_) (htag.step_opening hr closed) h
  · simp [toList_head]
  · have hlength := length_le_attrs as
    rw [length_append, toList_head, length_cons, length_append] at hn
    rw [append_assoc]
    exact htag.mark_opening closed rest (by omega)

theorem Leads.closing (ho : isPlainName o.name)
    (h : Leads rest (add ⟨os, root, d⟩ o.close) r') :
    Leads ('<' :: '/' :: (o.name.toList ++ '>' :: rest)) ⟨o :: os, root, d⟩ r' := by
  have hfront : '<' :: '/' :: (o.name.toList ++ '>' :: rest) =
      ('<' :: '/' :: (o.name.toList ++ ['>'])) ++ rest := by
    simp
  rw [hfront]
  have hstep : step ⟨o :: os, root, d⟩ (.closing o.name) = some _ := if_pos rfl
  refine Leads.of_mark (by simp) (fun n _ => ?_) hstep h
  rw [← hfront]
  exact mark_closing ho rest n

theorem Leads.around (htag : PlainTag tag as) (hr : Ready r) {inside : List Char}
    (hname : o.name = tag) (hinside : ∀ {after : List Char} {r' : Reading},
      Leads ('<' :: after) ⟨o :: r.stack, r.root, r.doctype⟩ r' →
      Leads (inside ++ '<' :: after)
        ⟨⟨tag, tag, as, [], [], outerScope⟩ :: r.stack, r.root, r.doctype⟩ r')
    (h : Leads rest (r.add o.close) r') :
    Leads ((head tag as).toList ++ '>' :: (inside ++ '<' :: '/' :: (tag.toList ++ '>' :: rest)))
      r r' := by
  subst hname
  exact Leads.opening htag hr false (hinside (h.closing htag.name))

def ReadsBack (depth : Nat) (x : Xml) : Prop :=
  ∀ {r r' : Reading} {rest : List Char}, Ready r → Leads rest (r.add (x.indented depth)) r' →
    Leads ((x.render depth).toList ++ rest) r r'

def ReadsBackAll (depth : Nat) (cs : List Xml) : Prop :=
  ∀ {o : Open} {os : List Open} {root : Option Xml} {d : Bool} {r' : Reading} {rest : List Char},
    o.scope = outerScope →
    Leads ('<' :: rest) ⟨{ o with children :=
      (indentedAll (depth + 1) cs).reverse ++ o.children } :: os, root, d⟩ r' →
    Leads ((renderAll depth cs).toList ++ '<' :: rest) ⟨o :: os, root, d⟩ r'

theorem readsBack_leaf {text : Option String} (depth : Nat) (hx : Printable (.element tag as text [])) :
    ReadsBack depth (.element tag as text []) := by
  intro r r' rest hr h
  rw [Printable] at hx
  have hclosed : Leads rest (r.add (.element tag as none [])) r' →
      Leads ((head tag as ++ " />").toList ++ rest) r r' := by
    intro h
    rw [String.toList_append, append_assoc]
    exact Leads.opening hx.1 hr true h
  rw [indented] at h
  rcases text with _ | t
  · rw [render]
    exact hclosed h
  · by_cases ht : t = ""
    · subst ht
      rw [render]
      exact hclosed h
    · rw [render]
      · have hfront : (head tag as ++ ">" ++ escape t ++ "</" ++ tag ++ ">").toList ++ rest =
            (head tag as).toList ++ '>' :: ((escape t).toList ++
              '<' :: '/' :: (tag.toList ++ '>' :: rest)) := by
          simp
        rw [hfront]
        refine Leads.around (o := hear ⟨tag, tag, as, [], [], outerScope⟩ t.toList) hx.1 hr rfl
          ?_ ?_
        · intro after r'
          rw [toList_escape]
          exact Leads.text
        · simpa [hear, close, ht] using h
      · exact ht

theorem render_eq_cons (depth : Nat) (x : Xml) : ∃ cs, (x.render depth).toList = '<' :: cs := by
  rcases x with ⟨tag, as, text, _ | ⟨c, cs⟩⟩
  · rw [render.eq_def]
    simp only
    split <;> simp [toList_head]
  · rw [render]
    simp [toList_head]

theorem renderAll_eq_cons (depth : Nat) (c : Xml) (cs : List Xml) :
    ∃ rest, (renderAll depth (c :: cs)).toList = '<' :: rest := by
  obtain ⟨front, hfront⟩ := render_eq_cons (depth + 1) c
  cases cs with
  | nil => simp [renderAll, hfront]
  | cons c' cs => simp [renderAll, hfront]

theorem readsBack_node {text : Option String} {cs : List Xml} (depth : Nat)
    (hx : Printable (.element tag as text (c :: cs))) (hall : ReadsBackAll depth (c :: cs)) :
    ReadsBack depth (.element tag as text (c :: cs)) := by
  intro r r' rest hr h
  rw [Printable] at hx
  rw [indented] at h
  rw [render]
  obtain ⟨t, hne, ht, hwritten⟩ : ∃ t, t ≠ "" ∧
      (if isBlank (text.getD "") then newline (depth + 1) else text.getD "") = t ∧
      (if isBlank (text.getD "") then newline (depth + 1) else escape (text.getD "")).toList =
        t.toList.flatMap fun c => (escapeChar c).toList := by
    split
    · refine ⟨_, ?_, rfl, (escape_newline (depth + 1)).symm⟩
      simp [newline]
    · next hblank =>
      refine ⟨_, ?_, rfl, toList_escape _⟩
      intro hempty
      exact hblank (by rw [hempty]; decide)
  rw [ht] at h
  have hfront : (head tag as ++ ">" ++ (if isBlank (text.getD "") then newline (depth + 1)
      else escape (text.getD "")) ++ renderAll depth (c :: cs) ++ "</" ++ tag ++ ">").toList ++
        rest =
      (head tag as).toList ++ '>' :: (((t.toList.flatMap fun c => (escapeChar c).toList) ++
        (renderAll depth (c :: cs)).toList) ++ '<' :: '/' :: (tag.toList ++ '>' :: rest)) := by
    simp [hwritten]
  rw [hfront]
  refine Leads.around (o := { hear ⟨tag, tag, as, [], [], outerScope⟩ t.toList with
    children := (indentedAll (depth + 1) (c :: cs)).reverse ++ [] }) hx.1 hr rfl ?_ ?_
  · intro after r' h
    have hchildren := hall (o := hear ⟨tag, tag, as, [], [], outerScope⟩ t.toList) rfl h
    obtain ⟨front, hfirst⟩ := renderAll_eq_cons depth c cs
    rw [hfirst, cons_append] at hchildren
    rw [append_assoc, hfirst, cons_append]
    exact Leads.text hchildren
  · simpa [hear, close, hne] using h

theorem ReadsBack.child (hc : ReadsBack depth c) (n : Nat) (ho : o.scope = outerScope)
    (h : Leads ('<' :: rest) ⟨{ o with children := c.indented depth :: o.children } :: os, root, d⟩
      r') :
    Leads ((c.render depth).toList ++ ((newline n).toList ++ '<' :: rest)) ⟨o :: os, root, d⟩
      r' := by
  refine hc (r := ⟨o :: os, root, d⟩) ho ?_
  rw [← escape_newline]
  exact Leads.text h

theorem readsBackAll_single (hc : ReadsBack (depth + 1) c) : ReadsBackAll depth [c] := by
  intro o os root d r' rest ho h
  rw [renderAll, String.toList_append, append_assoc]
  exact hc.child depth ho h

theorem readsBackAll_cons {c' : Xml} {cs : List Xml} (hc : ReadsBack (depth + 1) c)
    (hcs : ReadsBackAll depth (c' :: cs)) : ReadsBackAll depth (c :: c' :: cs) := by
  intro o os root d r' rest ho h
  obtain ⟨front, hfront⟩ := renderAll_eq_cons depth c' cs
  have hafter := hcs (o := { o with children := c.indented (depth + 1) :: o.children }) ho
    (by simpa [indentedAll] using h)
  rw [hfront, cons_append] at hafter
  rw [renderAll, String.toList_append, String.toList_append, append_assoc, append_assoc,
    hfront, cons_append]
  · exact hc.child (depth + 1) ho hafter
  · simp

theorem readsBackAll_nil (depth : Nat) : ReadsBackAll depth [] := by
  intro o os root d r' rest _ h
  exact h

mutual

theorem readsBack : (x : Xml) → (depth : Nat) → x.Printable → ReadsBack depth x
  | .element _ _ _ [], depth, hx => readsBack_leaf depth hx
  | .element _ _ _ (c :: cs), depth, hx => by
    have hcs := hx
    rw [Printable] at hcs
    exact readsBack_node depth hx (readsBackAll (c :: cs) depth hcs.2.2)

theorem readsBackAll : (cs : List Xml) → (depth : Nat) → PrintableAll cs → ReadsBackAll depth cs
  | [], depth, _ => readsBackAll_nil depth
  | [c], depth, hcs => by
    rw [PrintableAll] at hcs
    exact readsBackAll_single (readsBack c (depth + 1) hcs.1)
  | c :: c' :: cs, depth, hcs => by
    rw [PrintableAll] at hcs
    exact readsBackAll_cons (readsBack c (depth + 1) hcs.1) (readsBackAll (c' :: cs) depth hcs.2)

end

mutual

theorem isText_render : (x : Xml) → (depth : Nat) → x.Printable → isText (x.render depth)
  | .element tag as text [], depth, hx => by
    rw [Printable] at hx
    obtain ⟨htag, htext, -⟩ := hx
    have hhead := htag.isText_head
    have htag := isText_of_isPlainName htag.name
    rw [render.eq_def]
    simp only
    split
    · rw [isText_append, hhead]
      decide
    · rw [isText_append, hhead]
      decide
    · next t _ =>
      simp only [isText_append, hhead, isText_escape (htext t rfl), htag]
      decide
  | .element tag as text (c :: cs), depth, hx => by
    rw [Printable] at hx
    obtain ⟨htag, htext, hcs⟩ := hx
    have hhead := htag.isText_head
    have htag := isText_of_isPlainName htag.name
    have hinside : isText (if isBlank (text.getD "") then newline (depth + 1)
        else escape (text.getD "")) := by
      split
      · exact isText_newline _
      · cases text with
        | none => decide
        | some t => exact isText_escape (htext t rfl)
    rw [render]
    simp only [isText_append, hhead, hinside, isText_renderAll (c :: cs) depth hcs, htag]
    decide

theorem isText_renderAll : (cs : List Xml) → (depth : Nat) → PrintableAll cs →
    isText (renderAll depth cs)
  | [], _, _ => rfl
  | [c], depth, hcs => by
    rw [PrintableAll] at hcs
    rw [renderAll, isText_append, isText_render c (depth + 1) hcs.1, isText_newline]
    rfl
  | c :: c' :: cs, depth, hcs => by
    rw [PrintableAll] at hcs
    rw [renderAll, isText_append, isText_append, isText_render c (depth + 1) hcs.1, isText_newline,
      isText_renderAll (c' :: cs) depth hcs.2]
    · rfl
    · simp

end

theorem unifyLines_of_not_mem (h : '\r' ∉ cs) : Text.unifyLines cs = cs := by
  fun_induction Text.unifyLines cs with
  | case1 cs ih => simp at h
  | case2 cs hcs ih => simp at h
  | case3 c cs h1 h2 ih => rw [ih fun hmem => h (mem_cons_of_mem c hmem)]
  | case4 => rfl

theorem parse?_of_leads {text : String} {encoding : Option String}
    (hcs : Text.unifyLines text.toList = cs) (hmark : ∀ rest, cs ≠ '\ufeff' :: rest)
    (hdecl : declaration cs = some (encoding, rest))
    (hdecode : decodeAs encoding rest = some rest) (hallowed : rest.all isAllowed)
    (h : Leads rest ⟨[], none, false⟩ ⟨[], some x, d⟩) : parse? text = some x := by
  have hrun := h rest.length (Nat.le_refl _)
  rw [Option.bind_eq_some_iff] at hrun
  obtain ⟨ms, hms, hfold⟩ := hrun
  rw [parse?, hcs]
  dsimp only
  split
  · exact absurd rfl (hmark _)
  · simp only [hdecl, hdecode, hallowed, hms, hfold, Option.bind_eq_bind, Option.bind_some,
      Bool.not_true, Bool.false_eq_true, if_false, isEmpty_nil, if_true]

theorem leads_document (hx : x.Printable) :
    Leads ('\n' :: (x.render 0).toList) ⟨[], none, false⟩ ⟨[], some (x.indented 0), false⟩ := by
  obtain ⟨cs, hcs⟩ := render_eq_cons 0 x
  have hroot := readsBack x 0 hx (r := ⟨[], none, false⟩) rfl (leads_nil _)
  rw [append_nil] at hroot
  rw [hcs] at hroot ⊢
  have hmark : ∀ n, ['\n'].length ≤ n → mark n (['\n'] ++ '<' :: cs) =
      some (some (.text true ['\n']), '<' :: cs) := by
    intro n _
    rw [singleton_append, mark_text]
    · rfl
    · intro c hc
      cases hc
      decide
    · simp [isPlain]
  exact Leads.of_mark (by simp) hmark rfl hroot

theorem parse_document (hx : x.Printable) : parse x.document = .ok (x.indented 0) := by
  have htext : (x.render 0).toList.all isTextChar := isText_render x 0 hx
  simp only [all_eq_true, isTextChar, Bool.and_eq_true, bne_iff_ne] at htext
  have hchars : x.document.toList =
      "<?xml version='1.0' encoding='utf-8'?>".toList ++ '\n' :: (x.render 0).toList := by
    have hfirst : "<?xml version='1.0' encoding='utf-8'?>\n".toList =
        "<?xml version='1.0' encoding='utf-8'?>".toList ++ ['\n'] := by
      decide +kernel
    have hdoc : x.document.toList = "<?xml version='1.0' encoding='utf-8'?>\n".toList ++
        (x.render 0).toList := String.toList_append
    rw [hdoc, hfirst, append_assoc, singleton_append]
  have hlines : '\r' ∉ x.document.toList := by
    rw [hchars, mem_append, mem_cons]
    rintro (hmem | hmem | hmem)
    · exact absurd hmem (by decide +kernel)
    · exact absurd hmem (by decide)
    · exact (htext _ hmem).2 rfl
  have hallowed : ('\n' :: (x.render 0).toList).all isAllowed := by
    rw [all_cons, all_eq_true.2 fun c hc => (htext c hc).1]
    decide
  have hread : parse? x.document = some (x.indented 0) := by
    refine parse?_of_leads ((unifyLines_of_not_mem hlines).trans hchars) ?_ (declaration_utf8 _)
      ?_ hallowed (leads_document hx)
    · intro rest heq
      cases heq
    · have hlower : "utf-8".toLower = "utf-8" := by
        decide +kernel
      simp [decodeAs, hlower]
  rw [parse, hread]

theorem isAllowed_of_isText (h : isText s) : s.toList.all isAllowed := by
  rw [isText, all_eq_true] at h
  rw [all_eq_true]
  intro c hc
  have hc := h c hc
  rw [isTextChar, Bool.and_eq_true] at hc
  exact hc.1

theorem plainTag_of_isText (htag : isPlainName tag) (has : ∀ a ∈ as, isPlainName a.1 ∧ isText a.2)
    (h : allDistinct (as.map (·.1))) : PlainTag tag as :=
  ⟨htag, fun a ha => (has a ha).1, fun a ha => isAllowed_of_isText (has a ha).2, h⟩

theorem printableAll_iff {cs : List Xml} : PrintableAll cs ↔ ∀ c ∈ cs, c.Printable := by
  induction cs with
  | nil => simp [PrintableAll]
  | cons c cs ih => rw [PrintableAll, forall_mem_cons, ih]

@[simp] theorem printableAll_append {ys : List Xml} :
    PrintableAll (xs ++ ys) ↔ PrintableAll xs ∧ PrintableAll ys := by
  simp only [printableAll_iff, forall_mem_append]

@[simp] theorem printable_leaf {text : String} :
    (leaf tag text).Printable ↔ isPlainName tag ∧ isText text := by
  rw [leaf, Printable, PrintableAll]
  refine ⟨fun h => ⟨h.1.name, h.2.1 text rfl⟩, fun h => ⟨plainTag_of_isText h.1 (by simp) rfl, ?_⟩⟩
  simpa using h.2

@[simp] theorem printable_nodeWith {cs : List Xml} :
    (nodeWith tag as cs).Printable ↔ PlainTag tag as ∧ PrintableAll cs := by
  rw [nodeWith, Printable]
  simp

@[simp] theorem printable_node {cs : List Xml} :
    (node tag cs).Printable ↔ isPlainName tag ∧ PrintableAll cs := by
  have hnode : node tag cs = nodeWith tag [] cs := rfl
  rw [hnode, printable_nodeWith]
  exact ⟨fun h => ⟨h.1.name, h.2⟩, fun h => ⟨plainTag_of_isText h.1 (by simp) rfl, h.2⟩⟩

attribute [simp] PrintableAll isText_append

section

variable (tag : String) (attrs : List (String × String)) (text : Option String) (cs : List Xml)

@[simp] theorem tag_element : (element tag attrs text cs).tag = tag := rfl

@[simp] theorem children_element : (element tag attrs text cs).children = cs := rfl

@[simp] theorem text_element : (element tag attrs text cs).text = text := rfl

@[simp] theorem attr?_element (name : String) :
    (element tag attrs text cs).attr? name = attrs.lookup name := rfl

end

/-! ### Looking for elements -/

mutual

def named (name : String) : Xml → List Xml
  | .element tag attrs text cs =>
    (if tag = name then [.element tag attrs text cs] else []) ++ namedAll name cs

def namedAll (name : String) : List Xml → List Xml
  | [] => []
  | c :: cs => named name c ++ namedAll name cs

end

theorem namedAll_eq_flatMap (name : String) (xs : List Xml) :
    namedAll name xs = xs.flatMap (named name) := by
  induction xs with
  | nil => rfl
  | cons x xs ih => rw [namedAll, ih, flatMap_cons]

theorem namedAll_eq_nil {name : String} (h : ∀ x ∈ xs, x.named name = []) :
    namedAll name xs = [] := by
  rw [namedAll_eq_flatMap, flatMap_eq_nil_iff.2 h]

theorem namedAll_eq_self {name : String} (h : ∀ x ∈ xs, x.named name = [x]) :
    namedAll name xs = xs := by
  rw [namedAll_eq_flatMap, flatMap_congr h, flatMap_singleton']

theorem namedAll_append (name : String) (xs ys : List Xml) :
    namedAll name (xs ++ ys) = namedAll name xs ++ namedAll name ys := by
  simp only [namedAll_eq_flatMap, flatMap_append]

def child? (x : Xml) (name : String) : Option Xml := x.children.find? (·.tag == name)

end Jumpcut.Xml
