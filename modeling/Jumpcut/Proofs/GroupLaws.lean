import Jumpcut.CommandLine.Editor
import Jumpcut.CommandLine.Parse
import Jumpcut.Proofs.WorkspaceLaws
import Mathlib.Data.List.Nodup

namespace Jumpcut

open Outcome List

namespace CommandLine

theorem Values.lookup_set (vs : Values) (k n : String) (v : ArgValue) :
    (vs.set k v).lookup n = if n = k then some v else vs.lookup n :=
  lookup_put vs k n v

/-- The arguments are such as the option takes. A list takes all that names no option. -/
def ArgOption.Takes (p : Program) (o : ArgOption) (args : List String) : Prop :=
  match o.form with
  | .flag => args = []
  | .single => args.length = 1 ∧ ∀ v ∈ args, ¬ isHelp v
  | .many => ∀ v ∈ args, p.find? v = none

instance (p : Program) (o : ArgOption) (args : List String) : Decidable (o.Takes p args) := by
  unfold ArgOption.Takes
  split <;> infer_instance

/-- A use of an option on the command line of a program: one of its names, and the arguments that
it takes. -/
structure Group (p : Program) where
  option : ArgOption
  name : String
  args : List String
  mem : option ∈ p.options
  named : option.isNamed name
  notHelp : option ≠ helpOption
  takes : option.Takes p args

def Group.of (p : Program) (first name : String) (args : List String)
    (h : (p.options.find? (·.name = first)).isSome)
    (hnamed : ((p.options.find? (·.name = first)).get h).isNamed name)
    (hne : (p.options.find? (·.name = first)).get h ≠ helpOption)
    (ht : ((p.options.find? (·.name = first)).get h).Takes p args) : Group p where
  option := (p.options.find? (·.name = first)).get h
  name := name
  args := args
  mem := mem_of_find?_eq_some (Option.some_get h).symm
  named := hnamed
  notHelp := hne
  takes := ht

structure Program.Distinct (p : Program) : Prop where
  names : p.options.Pairwise fun a b => ∀ arg, a.isNamed arg → ¬ b.isNamed arg
  keys : (p.options.map ArgOption.key).Nodup

namespace Program

variable {p : Program}

theorem helpOption_mem (p : Program) : helpOption ∈ p.options := by
  simp [options, allEntries]

theorem Distinct.find?_eq (hp : p.Distinct) {o : ArgOption} (ho : o ∈ p.options) {arg : String}
    (h : o.isNamed arg) : p.find? arg = some o := by
  have hnames := hp.names
  rw [find?]
  generalize p.options = os at ho hnames
  induction os with
  | nil => cases ho
  | cons a os ih =>
    obtain ⟨hhead, htail⟩ := pairwise_cons.1 hnames
    rw [find?_cons]
    rcases mem_cons.1 ho with rfl | ho
    · rw [h]
    · have ha : a.isNamed arg = false := by
        by_contra hne
        exact hhead o ho arg (by simpa using hne) h
      rw [ha]
      exact ih ho htail

theorem isNamed_of_isHelp {arg : String} (h : isHelp arg) : helpOption.isNamed arg := by
  rw [isHelp, Bool.or_eq_true, beq_iff_eq, beq_iff_eq] at h
  rcases h with rfl | rfl <;> decide

theorem Distinct.eq_of_key (hp : p.Distinct) {a b : ArgOption} (ha : a ∈ p.options)
    (hb : b ∈ p.options) (h : a.key = b.key) : a = b :=
  inj_on_of_nodup_map hp.keys ha hb h

end Program

namespace Group

variable {p : Program}

def tokens (g : Group p) : List String := g.name :: g.args

def key (g : Group p) : String := g.option.key

def collect (kind : ArgKind) (slot : Option ArgValue) (arg : String) :
    Except Fault (Option ArgValue) := do
  let v ← toldAll (kind.read arg)
  match slot with
  | some (.many xs) => .ok (some (.many (xs ++ [v])))
  | some _ => .error .wrongKind
  | none => .error .noField

def act (slot : Option ArgValue) (g : Group p) : Except Fault (Option ArgValue) :=
  match g.option.form with
  | .flag => .ok (some (.flag true))
  | .single => do
    return some (← readValue g.option.name g.option.kind g.option.choices (g.args.headD ""))
  | .many => g.args.foldlM (collect g.option.kind) slot

def apply (vs : Values) (g : Group p) : Except Fault Values :=
  match g.option.form with
  | .flag => .ok (vs.set g.key (.flag true))
  | .single => do
    return vs.set g.key
      (← readValue g.option.name g.option.kind g.option.choices (g.args.headD ""))
  | .many => g.args.foldlM (fun vs a => do vs.append g.key (← toldAll (g.option.kind.read a))) vs

variable (vs : Values) (g : Group p)

theorem lookup_append (k : String) (kind : ArgKind) (arg : String) :
    (toldAll (kind.read arg) >>= vs.append k).map (·.lookup k) =
      collect kind (vs.lookup k) arg := by
  rw [collect]
  cases toldAll (kind.read arg) with
  | error e => rfl
  | ok v =>
    simp only [ok_bind, Values.append]
    cases vs.lookup k with
    | none => rfl
    | some u => cases u <;> simp [Except.map, Values.lookup_set]

theorem lookup_append_of_ne {vs vs' : Values} {k n : String} {v : ArgValue}
    (h : vs.append k v = .ok vs') (hn : n ≠ k) : vs'.lookup n = vs.lookup n := by
  rw [Values.append] at h
  split at h
  · cases h
    rw [Values.lookup_set, if_neg hn]
  · cases h
  · cases h

theorem lookup_apply : (apply vs g).map (·.lookup g.key) = act (vs.lookup g.key) g := by
  rw [apply, act]
  cases g.option.form with
  | flag => simp [Except.map, Values.lookup_set]
  | single =>
    cases readValue g.option.name g.option.kind g.option.choices (g.args.headD "") with
    | error e => rfl
    | ok v => simp [Except.map, pure, Except.pure, Values.lookup_set]
  | many =>
    generalize g.args = args
    induction args generalizing vs with
    | nil => rfl
    | cons a args ih =>
      rw [foldlM_cons, foldlM_cons, ← lookup_append]
      cases toldAll (g.option.kind.read a) >>= vs.append g.key with
      | error e => rfl
      | ok vs' => exact ih vs'

theorem lookup_apply_of_ne {vs vs' : Values} {g : Group p} {n : String} (h : apply vs g = .ok vs')
    (hn : n ≠ g.key) : vs'.lookup n = vs.lookup n := by
  rw [apply] at h
  split at h
  · cases h
    rw [Values.lookup_set, if_neg hn]
  · simp only [bind_eq_ok, pure_eq_ok] at h
    obtain ⟨v, -, rfl⟩ := h
    rw [Values.lookup_set, if_neg hn]
  · generalize g.args = args at h
    induction args generalizing vs with
    | nil =>
      cases h
      rfl
    | cons a args ih =>
      simp only [foldlM_cons, bind_eq_ok] at h
      obtain ⟨vs₁, ⟨v, -, hv⟩, h⟩ := h
      rw [ih h, lookup_append_of_ne hv hn]

def under (n : String) (gs : List (Group p)) : List (Group p) := gs.filter fun g => g.key = n

theorem mem_under {n : String} {gs : List (Group p)} {g : Group p} :
    g ∈ under n gs ↔ g ∈ gs ∧ g.key = n := by
  simp [under]

theorem foldlM_under_cons {vs vs' : Values} {g : Group p} (h : apply vs g = .ok vs')
    (gs : List (Group p)) (n : String) :
    (under n (g :: gs)).foldlM act (vs.lookup n) = (under n gs).foldlM act (vs'.lookup n) := by
  rw [under, filter_cons]
  by_cases hn : g.key = n
  · have hact := lookup_apply vs g
    rw [h, hn] at hact
    rw [if_pos (by simpa using hn), foldlM_cons, ← hact]
    rfl
  · rw [if_neg (by simpa using hn), lookup_apply_of_ne h (Ne.symm hn)]
    rfl

theorem lookup_foldlM {vs vs' : Values} {gs : List (Group p)} (h : gs.foldlM apply vs = .ok vs')
    (n : String) : (under n gs).foldlM act (vs.lookup n) = .ok (vs'.lookup n) := by
  induction gs generalizing vs with
  | nil =>
    cases h
    rfl
  | cons g gs ih =>
    rw [foldlM_cons, bind_eq_ok] at h
    obtain ⟨vs₁, hg, h⟩ := h
    rw [foldlM_under_cons hg, ih h]

theorem foldlM_ok_iff {vs : Values} {gs : List (Group p)} :
    (∃ vs', gs.foldlM apply vs = .ok vs') ↔
      ∀ n, ∃ slot, (under n gs).foldlM act (vs.lookup n) = .ok slot := by
  constructor
  · rintro ⟨vs', h⟩ n
    exact ⟨_, lookup_foldlM h n⟩
  · intro h
    induction gs generalizing vs with
    | nil => exact ⟨vs, rfl⟩
    | cons g gs ih =>
      obtain ⟨slot, hslot⟩ := h g.key
      rw [under, filter_cons, if_pos (by simp), foldlM_cons, bind_eq_ok] at hslot
      obtain ⟨slot₁, hact, -⟩ := hslot
      rw [← lookup_apply, map_eq_ok] at hact
      obtain ⟨vs₁, hg, -⟩ := hact
      simp only [foldlM_under_cons hg] at h
      obtain ⟨vs', hvs'⟩ := ih h
      exact ⟨vs', by rw [foldlM_cons, hg, ok_bind, hvs']⟩

def Once (gs : List (Group p)) : Prop :=
  gs.Pairwise fun a b => a.option = b.option → a.option.form = .many

instance (gs : List (Group p)) : Decidable (Once gs) := by
  unfold Once
  infer_instance

/-- The uses are the same in another order, and those of each option with a list of arguments are
in the same order. -/
structure Reordered (gs gs' : List (Group p)) : Prop where
  perm : gs.Perm gs'
  kept : ∀ o : ArgOption, o.form = .many →
    (gs.filter fun g => g.option = o) = gs'.filter fun g => g.option = o

theorem Once.perm {gs gs' : List (Group p)} (h : Once gs) (hperm : gs.Perm gs') : Once gs' :=
  (hperm.pairwise_iff fun hab heq => heq ▸ hab heq.symm).1 h

theorem under_eq_filter (hp : p.Distinct) {gs : List (Group p)} {g : Group p} :
    under g.key gs = gs.filter fun h => h.option = g.option := by
  refine filter_congr fun h _ => ?_
  rw [decide_eq_decide]
  exact ⟨hp.eq_of_key h.mem g.mem, fun heq => congrArg ArgOption.key heq⟩

theorem Reordered.under_eq (hp : p.Distinct) {gs gs' : List (Group p)} (honce : Once gs)
    (h : Reordered gs gs') (n : String) : under n gs = under n gs' := by
  have hperm : (under n gs).Perm (under n gs') := h.perm.filter _
  have hpair : Once (under n gs) := honce.filter _
  have hkey : ∀ g ∈ under n gs, g.key = n := fun g hg => (mem_under.1 hg).2
  cases hgs : under n gs with
  | nil =>
    rw [hgs] at hperm
    rw [hperm.nil_eq]
  | cons g rest =>
    rw [hgs, forall_mem_cons] at hkey
    obtain ⟨rfl, hkey⟩ := hkey
    by_cases hmany : g.option.form = .many
    · rw [← hgs, under_eq_filter hp, under_eq_filter hp, h.kept g.option hmany]
    · rw [hgs] at hperm hpair
      cases rest with
      | nil => rw [singleton_perm.1 hperm]
      | cons b rest =>
        have heq := hp.eq_of_key g.mem b.mem (hkey b mem_cons_self).symm
        exact absurd ((pairwise_cons.1 hpair).1 b mem_cons_self heq) hmany

end Group

namespace Program

open CommandLine.Group

variable {p : Program} {columns : Nat} {r : Reading} {inputs rest args : List String}
  {o : ArgOption} {arg : String}

theorem find?_group (hp : p.Distinct) (g : Group p) : p.find? g.name = some g.option :=
  hp.find?_eq g.mem g.named

theorem head_not_help (hp : p.Distinct) (gs : List (Group p)) :
    (gs.flatMap tokens).head?.any isHelp = false := by
  cases gs with
  | nil => rfl
  | cons g gs =>
    rw [flatMap_cons, tokens, cons_append, head?_cons, Option.any_some]
    by_contra hhelp
    have hfind := hp.find?_eq p.helpOption_mem (isNamed_of_isHelp (by simpa using hhelp))
    rw [find?_group hp] at hfind
    exact g.notHelp (Option.some.inj hfind)

theorem args_not_help (hp : p.Distinct) (g : Group p) (gs : List (Group p)) :
    (g.args ++ gs.flatMap tokens).head?.any isHelp = false := by
  have htakes := g.takes
  rw [ArgOption.Takes] at htakes
  cases hargs : g.args with
  | nil => exact head_not_help hp gs
  | cons a args =>
    rw [hargs] at htakes
    rw [cons_append, head?_cons, Option.any_some]
    split at htakes
    · cases htakes
    · simpa using htakes.2 a mem_cons_self
    · by_contra hhelp
      have hfind := hp.find?_eq p.helpOption_mem (isNamed_of_isHelp (by simpa using hhelp))
      rw [htakes a mem_cons_self] at hfind
      cases hfind

theorem readArgs_inputs (hmany : p.positional.many) (hlist : r.list = none)
    (h : ∀ a ∈ inputs, p.find? a = none ∧ ¬ a.startsWith "--") :
    p.readArgs columns r (inputs ++ rest) =
      p.readArgs columns { r with inputs := r.inputs ++ inputs } rest := by
  induction inputs generalizing r with
  | nil => simp
  | cons a inputs ih =>
    obtain ⟨⟨hfind, hplain⟩, htail⟩ := forall_mem_cons.1 h
    rw [cons_append, readArgs, hfind]
    simp only [takePlain, hlist, hplain, hmany, Bool.false_eq_true, if_false, if_true, ok_bind]
    refine (ih ?_ htail).trans ?_
    · rfl
    · simp

theorem readArgs_list {key : String} {kind : ArgKind} (hlist : r.list = some (key, kind))
    (h : ∀ a ∈ args, p.find? a = none) :
    p.readArgs columns r (args ++ rest) =
      args.foldlM (fun vs a => do vs.append key (← toldAll (kind.read a))) r.values >>= fun vs =>
        p.readArgs columns { r with values := vs } rest := by
  induction args generalizing r with
  | nil => simp
  | cons a args ih =>
    obtain ⟨hfind, htail⟩ := forall_mem_cons.1 h
    rw [cons_append, readArgs, hfind, foldlM_cons]
    simp only [takePlain, hlist]
    cases toldAll (kind.read a) with
    | error e => rfl
    | ok v =>
      simp only [ok_bind]
      cases r.values.append key v with
      | error e => rfl
      | ok vs => exact ih rfl htail

def after (r : Reading) (g : Group p) (vs : Values) : Reading :=
  if g.option.form = .many then { r with values := vs, list := some (g.key, g.option.kind) }
  else { r with values := vs, used := r.used ++ [g.option], list := none }

theorem readArgs_group (hp : p.Distinct) {g : Group p}
    (hnew : g.option.form ≠ .many → g.option ∉ r.used)
    (hhelp : (g.args ++ rest).head?.any isHelp = false) :
    p.readArgs columns r (g.tokens ++ rest) =
      (apply r.values g >>= fun vs => p.readArgs columns (after r g vs) rest) := by
  have htakes := g.takes
  rw [ArgOption.Takes] at htakes
  rw [tokens, cons_append, readArgs, apply]
  simp only [find?_group hp, markUsed, after]
  cases hform : g.option.form with
  | flag =>
    have hused := hnew (by simp [hform])
    simp only [hform] at htakes
    simp only [htakes, nil_append] at hhelp
    simp [hused, htakes, hhelp, key]
  | single =>
    have hused := hnew (by simp [hform])
    simp only [hform] at htakes
    obtain ⟨v, hargs⟩ := length_eq_one_iff.1 htakes.1
    have hv : isHelp v = false := by simpa [hargs] using hhelp
    simp [hused, hargs, hv, key]
  | many =>
    simp only [hform] at htakes
    simp only [hhelp, if_true, Bool.false_eq_true, if_false, ok_bind]
    exact readArgs_list rfl htakes

theorem readArgs_groups (hp : p.Distinct) (hmany : p.positional.many) {gs : List (Group p)}
    (hnew : ∀ g ∈ gs, g.option.form ≠ .many → g.option ∉ r.used) (honce : Once gs) :
    p.readArgs columns r (gs.flatMap tokens) =
      (gs.foldlM apply r.values >>= fun vs =>
        p.readArgs columns ⟨vs, [], r.inputs, none, true⟩ []) := by
  induction gs generalizing r with
  | nil => simp [readArgs, hmany]
  | cons g gs ih =>
    obtain ⟨hhead, htail⟩ := pairwise_cons.1 honce
    rw [flatMap_cons, readArgs_group hp (hnew g mem_cons_self) (args_not_help hp g gs),
      foldlM_cons]
    cases apply r.values g with
    | error e => rfl
    | ok vs =>
      rw [ok_bind, ok_bind]
      have hnew' : ∀ h ∈ gs, h.option.form ≠ .many → h.option ∉ (after r g vs).used := by
        intro h hh hform
        have hold := hnew h (mem_cons_of_mem g hh) hform
        rw [after]
        split
        · exact hold
        · next hg =>
          rw [mem_append, mem_singleton, not_or]
          exact ⟨hold, fun heq => hg (hhead h hh heq.symm)⟩
      rw [ih hnew' htail]
      cases hform : g.option.form <;> simp [after, hform]

theorem replaceFirst_of_not_mem {old : String} {new : List String} (h : old ∉ args) :
    replaceFirst old new args = args := by
  induction args with
  | nil => rfl
  | cons a args ih =>
    rw [mem_cons, not_or] at h
    rw [replaceFirst, if_neg (Ne.symm h.1), ih h.2]

def IsOld (p : Program) (arg : String) : Prop :=
  ∃ m ∈ p.macros, arg ∈ m.1 ++ m.1.map underscored

instance (p : Program) (arg : String) : Decidable (p.IsOld arg) := by
  unfold IsOld
  infer_instance

theorem expand_of_not_isOld (h : ∀ a ∈ args, ¬ p.IsOld a) : p.expand args = args := by
  rw [expand]
  refine foldlRecOn (motive := (· = args)) p.macros _ rfl ?_
  rintro _ rfl m hm
  refine foldlRecOn (motive := (· = _)) _ _ rfl ?_
  rintro _ rfl old hold
  exact replaceFirst_of_not_mem fun hmem => h old hmem ⟨m, hm, mem_eraseDups.1 hold⟩

/-- Both fail, both show the same page, or both give the same value to each name. -/
inductive Agree : Except Fault Outcome → Except Fault Outcome → Prop
  | values {vs vs' : Values} (h : ∀ n, vs.lookup n = vs'.lookup n) :
    Agree (.ok (.values vs)) (.ok (.values vs'))
  | page (text : String) : Agree (.ok (.page text)) (.ok (.page text))
  | failed (e e' : Fault) : Agree (.error e) (.error e')

theorem Agree.refl (r : Except Fault Outcome) : Agree r r := by
  rcases r with e | vs | text
  · exact .failed e e
  · exact .values fun _ => rfl
  · exact .page text

theorem readArgs_nil_agree (hmany : p.positional.many) {vs vs' : Values}
    (h : ∀ n, vs.lookup n = vs'.lookup n) :
    Agree (p.readArgs columns ⟨vs, [], inputs, none, true⟩ [])
      (p.readArgs columns ⟨vs', [], inputs, none, true⟩ []) := by
  have hset : ∀ v n, (vs.set p.positional.name v).lookup n =
      (vs'.set p.positional.name v).lookup n := by
    intro v n
    rw [Values.lookup_set, Values.lookup_set, h]
  have hflag : ∀ v, (vs.set p.positional.name v).flag "help" =
      (vs'.set p.positional.name v).flag "help" := by
    intro v
    rw [Values.flag, Values.get, hset]
    rfl
  simp only [readArgs, hmany, if_true, hflag]
  split
  · exact Agree.refl _
  · exact .values (hset _)

theorem foldlM_agree (hmany : p.positional.many) {vs : Values} {gs gs' : List (Group p)}
    (h : ∀ n, under n gs = under n gs') :
    Agree (gs.foldlM apply vs >>= fun vs => p.readArgs columns ⟨vs, [], inputs, none, true⟩ [])
      (gs'.foldlM apply vs >>= fun vs => p.readArgs columns ⟨vs, [], inputs, none, true⟩ []) := by
  have hiff : (∃ out, gs.foldlM apply vs = .ok out) ↔ ∃ out, gs'.foldlM apply vs = .ok out := by
    simp only [foldlM_ok_iff, h]
  cases hgs : gs.foldlM apply vs with
  | error e =>
    cases hgs' : gs'.foldlM apply vs with
    | error e' => exact .failed e e'
    | ok out' => simp [hgs, hgs'] at hiff
  | ok out =>
    obtain ⟨out', hgs'⟩ := hiff.1 ⟨out, hgs⟩
    rw [hgs', ok_bind, ok_bind]
    refine readArgs_nil_agree hmany fun n => ?_
    have hn := lookup_foldlM hgs n
    rw [h n, lookup_foldlM hgs' n] at hn
    exact (Except.ok.inj hn).symm

theorem parse_groups (hp : p.Distinct) (hmany : p.positional.many) {gs : List (Group p)}
    (hinputs : ∀ a ∈ inputs, p.find? a = none ∧ ¬ a.startsWith "--")
    (hold : ∀ a ∈ inputs ++ gs.flatMap tokens, ¬ p.IsOld a) (honce : Once gs)
    (hne : inputs ++ gs.flatMap tokens ≠ []) :
    p.parse columns (inputs ++ gs.flatMap tokens) =
      (gs.foldlM apply p.defaults >>= fun vs =>
        p.readArgs columns ⟨vs, [], inputs, none, true⟩ []) := by
  rw [parse, isEmpty_eq_false_iff.2 hne, Bool.false_and, if_neg Bool.false_ne_true,
    expand_of_not_isOld hold, readArgs_inputs hmany rfl hinputs,
    readArgs_groups hp hmany (by simp) honce]
  rfl

/-- The outcome of a command line does not depend on the order of the uses of options, as long as
those that collect into the same list stay in order. -/
theorem parse_reordered (hp : p.Distinct) (hmany : p.positional.many) {inputs : List String}
    {gs gs' : List (Group p)} (hinputs : ∀ a ∈ inputs, p.find? a = none ∧ ¬ a.startsWith "--")
    (hold : ∀ a ∈ inputs ++ gs.flatMap tokens, ¬ p.IsOld a) (honce : Once gs)
    (h : Reordered gs gs') :
    Agree (p.parse columns (inputs ++ gs.flatMap tokens))
      (p.parse columns (inputs ++ gs'.flatMap tokens)) := by
  have hperm := (h.perm.flatMap_right tokens).append_left inputs
  by_cases hnil : inputs ++ gs.flatMap tokens = []
  · rw [hnil] at hperm
    rw [hnil, hperm.nil_eq]
    exact Agree.refl _
  · have hnil' : inputs ++ gs'.flatMap tokens ≠ [] := by
      intro hnil'
      rw [hnil'] at hperm
      exact hnil hperm.eq_nil
    have hold' : ∀ a ∈ inputs ++ gs'.flatMap tokens, ¬ p.IsOld a :=
      fun a ha => hold a (hperm.mem_iff.2 ha)
    rw [parse_groups hp hmany hinputs hold honce hnil,
      parse_groups hp hmany hinputs hold' (honce.perm h.perm) hnil']
    exact foldlM_agree hmany (h.under_eq hp honce)

theorem toList_replaceHyphens (new : String) (cs : List Char) :
    (replaceHyphens new cs).toList = cs.flatMap fun c => if c = '-' then new.toList else [c] := by
  rw [replaceHyphens, String.toList_join, flatMap_map]
  refine flatMap_congr fun c _ => ?_
  split <;> simp

def letters : List Char → List Char
  | a :: b :: cs => a :: b :: cs.map fun c => if c = '-' then '_' else c
  | cs => cs

theorem toList_underscored (name : String) : (underscored name).toList = letters name.toList := by
  have htail (cs : List Char) :
      (replaceHyphens "_" cs).toList = cs.map fun c => if c = '-' then '_' else c := by
    rw [toList_replaceHyphens, map_eq_flatMap]
    refine flatMap_congr fun c _ => ?_
    split <;> simp
  rw [underscored, String.toList_append, String.toList_ofList, htail]
  rcases name.toList with _ | ⟨a, _ | ⟨b, cs⟩⟩ <;> simp [letters]

theorem letters_letters (cs : List Char) : letters (letters cs) = letters cs := by
  rcases cs with _ | ⟨a, _ | ⟨b, cs⟩⟩
  · rfl
  · rfl
  · simp only [letters, map_map, cons.injEq, true_and]
    refine map_congr_left fun c _ => ?_
    by_cases hc : c = '-' <;> simp [hc]

theorem head?_letters (cs : List Char) : (letters cs).head? = cs.head? := by
  rcases cs with _ | ⟨a, _ | ⟨b, cs⟩⟩ <;> rfl

theorem isNamed_iff : o.isNamed arg ↔ arg ∈ o.names ∨ ∃ name ∈ o.names, underscored name = arg := by
  simp [ArgOption.isNamed]

theorem mem_letters (h : o.isNamed arg) :
    letters arg.toList ∈ o.names.map fun name => letters name.toList := by
  rcases isNamed_iff.1 h with hmem | ⟨name, hmem, rfl⟩
  · exact mem_map.2 ⟨arg, hmem, rfl⟩
  · rw [toList_underscored, letters_letters]
    exact mem_map.2 ⟨name, hmem, rfl⟩

/-- A number for a text. Numbers are compared faster than texts. -/
def code (cs : List Char) : Nat := cs.foldl (fun n c => n * 1114112 + c.toNat) 0

theorem Distinct.of_codes
    (hnames : ((p.options.flatMap fun o => o.names.map fun name => letters name.toList).map
      code).Nodup) (hkeys : (p.options.map ArgOption.key).Nodup) : p.Distinct where
  names := (nodup_flatMap.1 hnames.of_map).2.imp fun h _ ha hb =>
    h (mem_letters ha) (mem_letters hb)
  keys := hkeys

theorem startsWith_hyphen {s : String} : s.startsWith "-" ↔ s.toList.head? = some '-' := by
  rw [String.startsWith_string_iff]
  cases s.toList <;> simp [eq_comm]

theorem find?_eq_none (hp : ∀ o ∈ p.options, ∀ name ∈ o.names, name.startsWith "-")
    (h : ¬ arg.startsWith "-") : p.find? arg = none := by
  rw [find?, List.find?_eq_none]
  intro o ho hnamed
  rcases isNamed_iff.1 hnamed with harg | ⟨name, hname, rfl⟩
  · exact h (hp o ho arg harg)
  · rw [startsWith_hyphen, toList_underscored, head?_letters, ← startsWith_hyphen] at h
    exact h (hp o ho name hname)

theorem distinct_editor : editor.Distinct :=
  Distinct.of_codes (by decide +kernel) (by decide +kernel)

theorem find?_editor (h : ¬ arg.startsWith "-") : editor.find? arg = none :=
  find?_eq_none (by decide +kernel) h

theorem takes_editor (ho : o.form = .many) (h : ∀ v ∈ args, ¬ v.startsWith "-") :
    o.Takes editor args := by
  rw [ArgOption.Takes, ho]
  exact fun v hv => find?_editor (h v hv)

def cutFirst : Group editor :=
  Group.of editor "--cut-out" "--cut-out" ["1,2"] (by decide +kernel) (by decide +kernel)
    (by decide +kernel) (takes_editor (by decide +kernel) (by decide +kernel))

def cutNext : Group editor :=
  Group.of editor "--cut-out" "--cut_out" ["5,7", "8,9"] (by decide +kernel) (by decide +kernel)
    (by decide +kernel) (takes_editor (by decide +kernel) (by decide +kernel))

def setSpeed : Group editor :=
  Group.of editor "--silent-speed" "-s" ["4"] (by decide +kernel) (by decide +kernel)
    (by decide +kernel) (by decide +kernel)

def keepQuiet : Group editor :=
  Group.of editor "--quiet" "--quiet" [] (by decide +kernel) (by decide +kernel)
    (by decide +kernel) (by decide +kernel)

theorem reordered_cuts :
    Reordered [cutFirst, keepQuiet, cutNext, setSpeed]
      [setSpeed, cutFirst, cutNext, keepQuiet] := by
  constructor
  · have hlast := perm_append_singleton setSpeed [cutFirst, keepQuiet, cutNext]
    exact hlast.trans (((Perm.swap cutNext keepQuiet []).cons cutFirst).cons setSpeed)
  · intro o ho
    have hquiet : keepQuiet.option ≠ o := by
      rintro rfl
      revert ho
      decide +kernel
    have hspeed : setSpeed.option ≠ o := by
      rintro rfl
      revert ho
      decide +kernel
    simp [filter_cons, hquiet, hspeed]

theorem parse_reordered_editor :
    (editor.parse 80
      (["talk.mp4"] ++ [cutFirst, keepQuiet, cutNext, setSpeed].flatMap tokens)).isOk ∧
    Agree
      (editor.parse 80 (["talk.mp4"] ++ [cutFirst, keepQuiet, cutNext, setSpeed].flatMap tokens))
      (editor.parse 80
        (["talk.mp4"] ++ [setSpeed, cutFirst, cutNext, keepQuiet].flatMap tokens)) := by
  have hinputs : ∀ a ∈ ["talk.mp4"], editor.find? a = none ∧ ¬ a.startsWith "--" :=
    forall_mem_singleton.2 ⟨find?_editor (by decide +kernel), by decide +kernel⟩
  have hold : ∀ a ∈ ["talk.mp4"] ++ [cutFirst, keepQuiet, cutNext, setSpeed].flatMap tokens,
      ¬ editor.IsOld a := by
    decide +kernel
  have honce : Once [cutFirst, keepQuiet, cutNext, setSpeed] := by decide +kernel
  constructor
  · rw [parse_groups distinct_editor rfl hinputs hold honce (by simp)]
    decide +kernel
  · exact parse_reordered distinct_editor rfl hinputs hold honce reordered_cuts

end Program

end CommandLine

end Jumpcut
