import Jumpcut.Analysis.Method
import Jumpcut.Export
import Jumpcut.Timeline.Object
import Jumpcut.Proofs.OutcomeLaws
import Mathlib.Data.List.Nodup
import Mathlib.Data.List.Perm.Basic

/-!
Attributes given by position and by name. Both come to the same assignments of values to
attributes. These do not depend on their order, as no attribute is given twice.
-/
namespace Jumpcut.Setting

open Outcome List Attr

theorem parts_single {sep : Char} {s : String} (h : sep ∉ s.toList) : parts sep s = [s] := by
  rw [parts, splitOn_eq_singleton h, map_singleton, String.ofList_toList]

theorem parts_pair {sep : Char} {a b : String} (ha : sep ∉ a.toList) (hb : sep ∉ b.toList) :
    parts sep (a ++ sep.toString ++ b) = [a, b] := by
  have htext : (a ++ sep.toString ++ b).toList = a.toList ++ sep :: b.toList := by
    simp [Char.toString_eq_singleton]
  rw [parts, htext, splitOn_append_cons_self, splitOn_eq_singleton ha,
    splitOn_eq_singleton hb]
  simp

theorem parts_intercalate {vs : List String} (hne : vs ≠ []) (h : ∀ v ∈ vs, ',' ∉ v.toList) :
    parts ',' (",".intercalate vs) = vs := by
  have htext : (",".intercalate vs).toList = [','].intercalate (vs.map String.toList) := by
    rw [String.toList_intercalate]
    rfl
  rw [parts, htext, splitOn_intercalate ',' (by simpa using h) (by simpa using hne)]
  simp

theorem intercalate_ne_empty {vs : List String} (hne : vs ≠ []) (h : ∀ v ∈ vs, ',' ∉ v.toList)
    (hempty : vs ≠ [""]) : ",".intercalate vs ≠ "" := by
  intro htext
  have hparts := parts_intercalate hne h
  rw [htext] at hparts
  exact hempty (hparts.symm.trans (by decide))

namespace Attributes

theorem set_cons (p : String × Option Raw) (as : Attributes) (name : String) (v : Raw) :
    set (p :: as) name v = (if p.1 == name then (name, some v) else p) :: set as name v := rfl

theorem set_of_notMem {as : Attributes} {name : String} (h : name ∉ as.map Prod.fst) (v : Raw) :
    as.set name v = as := by
  induction as with
  | nil => rfl
  | cons p as ih =>
    rw [map_cons, mem_cons, not_or] at h
    rw [set_cons, ih h.2, if_neg (by simpa using Ne.symm h.1)]

theorem set_comm (as : Attributes) {m n : String} (h : m ≠ n) (v w : Raw) :
    (as.set m v).set n w = (as.set n w).set m v := by
  induction as with
  | nil => rfl
  | cons p as ih =>
    rw [set_cons, set_cons, set_cons, set_cons, ih]
    congr 1
    by_cases hm : p.1 = m
    · simp [hm, h]
    · by_cases hn : p.1 = n
      · simp [hn, h.symm]
      · simp [hm, hn]

theorem complete_eq_ok {as : Attributes} {r : List (String × Raw)} :
    as.complete = .ok r ↔ as = r.map fun p => (p.1, some p.2) := by
  induction as generalizing r with
  | nil =>
    rw [complete, Except.ok.injEq, eq_comm, @eq_comm _ [], map_eq_nil_iff]
  | cons p as ih =>
    obtain ⟨name, v⟩ := p
    cases v with
    | none =>
      constructor
      · intro h
        cases h
      · intro h
        cases r with
        | nil => cases h
        | cons q r => cases (cons.inj h).1
    | some v =>
      simp only [complete, bind_eq_ok, pure_eq_ok, ih]
      constructor
      · rintro ⟨r', rfl, rfl⟩
        rfl
      · intro h
        cases r with
        | nil => cases h
        | cons q r =>
          obtain ⟨hhead, htail⟩ := cons.inj h
          cases hhead
          exact ⟨r, htail, rfl⟩

def assign (e : Extent) (as : Attributes) (xs : List (Attr × String)) : Except Fault Attributes :=
  xs.foldlM (fun as x => do return as.set x.1.name (← x.1.read e (.text x.2))) as

variable {e : Extent} {as bs : Attributes} {xs ys : List (Attr × String)}

theorem assign_cons_eq_ok {x : Attr × String} :
    assign e as (x :: xs) = .ok bs ↔
      ∃ w, x.1.read e (.text x.2) = .ok w ∧ assign e (as.set x.1.name w) xs = .ok bs := by
  simp only [assign, foldlM_cons, bind_eq_ok, pure_eq_ok]
  constructor
  · rintro ⟨-, ⟨w, hw, rfl⟩, h⟩
    exact ⟨w, hw, h⟩
  · rintro ⟨w, hw, h⟩
    exact ⟨_, ⟨w, hw, rfl⟩, h⟩

theorem assign_perm (h : xs.Perm ys) (hnodup : (xs.map (·.1.name)).Nodup) :
    assign e as xs = .ok bs ↔ assign e as ys = .ok bs := by
  induction h generalizing as with
  | nil => rfl
  | cons x _ ih =>
    simp only [assign_cons_eq_ok, ih (nodup_cons.1 hnodup).2]
  | swap x y xs =>
    have hne : y.1.name ≠ x.1.name := fun heq =>
      (nodup_cons.1 hnodup).1 (mem_cons.2 (.inl heq))
    simp only [assign_cons_eq_ok]
    constructor
    · rintro ⟨v, hv, w, hw, h⟩
      exact ⟨w, hw, v, hv, by rwa [set_comm _ hne.symm]⟩
    · rintro ⟨w, hw, v, hv, h⟩
      exact ⟨v, hv, w, hw, by rwa [set_comm _ hne]⟩
  | trans hxy _ ihxy ihyz =>
    exact (ihxy hnodup).trans (ihyz ((hxy.map _).nodup_iff.1 hnodup))

theorem assign_skip {name : String} {d : Option Raw} (h : ∀ x ∈ xs, x.1.name ≠ name) :
    assign e ((name, d) :: as) xs = .ok bs ↔
      ∃ cs, assign e as xs = .ok cs ∧ bs = (name, d) :: cs := by
  induction xs generalizing as with
  | nil =>
    change Except.ok _ = .ok bs ↔ ∃ cs, Except.ok as = .ok cs ∧ bs = _ :: cs
    simp [eq_comm]
  | cons x xs ih =>
    obtain ⟨hx, hxs⟩ := forall_mem_cons.1 h
    have hne : ¬ (name == x.1.name) = true := by simpa using hx.symm
    simp only [assign_cons_eq_ok, set_cons, if_neg hne, ih hxs]
    constructor
    · rintro ⟨w, hw, cs, hcs, rfl⟩
      exact ⟨cs, ⟨w, hw, hcs⟩, rfl⟩
    · rintro ⟨cs, ⟨w, hw, hcs⟩, rfl⟩
      exact ⟨w, hw, cs, hcs, rfl⟩

end Attributes

namespace Schema

open Attributes

variable {s : Schema} {e : Extent} {as bs : Attributes} {a : Attr} {rest attrs : List Attr}
  {ps vs ns : List String} {ks : List (String × String)} {r : List (String × Raw)}
  {readDefaults : Bool}

def positional (vs : List String) : String := ",".intercalate vs

def named (ks : List (String × String)) : String :=
  ",".intercalate (ks.map fun k => k.1 ++ "=" ++ k.2)

def Plain (text : String) : Prop := ',' ∉ text.toList ∧ '=' ∉ text.toList

instance : DecidablePred Plain := fun _ => inferInstanceAs (Decidable (_ ∧ _))

theorem readParts_value {v : String} (h : '=' ∉ v.toList) :
    s.readParts e false (a :: rest) as (v :: ps) =
      a.read e (.text v) >>= fun w => s.readParts e false rest (as.set a.name w) ps := by
  rw [readParts.eq_def]
  dsimp only
  rw [parts_single h]
  rfl

theorem readParts_named {byName : Bool} {b : Attr} {part key val : String}
    (hpart : parts '=' part = [key, val])
    (hfind : (s.attrs.find? fun a => a.names.contains key) = some b) :
    s.readParts e byName (a :: rest) as (part :: ps) =
      b.read e (.text val) >>= fun w => s.readParts e true rest (as.set b.name w) ps := by
  rw [readParts.eq_def]
  dsimp only
  rw [hpart]
  dsimp only
  rw [hfind]

theorem readParts_positional (hlength : vs.length ≤ rest.length) (hvs : ∀ v ∈ vs, Plain v) :
    s.readParts e false rest as vs = .ok bs ↔ assign e as (rest.zip vs) = .ok bs := by
  induction vs generalizing rest as with
  | nil =>
    rw [zip_nil_right]
    cases rest <;> rfl
  | cons v vs ih =>
    obtain ⟨hv, hvs⟩ := forall_mem_cons.1 hvs
    cases rest with
    | nil => cases hlength
    | cons a rest =>
      rw [readParts_value hv.2, bind_eq_ok, zip_cons_cons, assign_cons_eq_ok]
      exact exists_congr fun w => and_congr_right fun _ => ih (Nat.le_of_succ_le_succ hlength) hvs

theorem find?_names (h : (attrs.flatMap names).Nodup) (ha : a ∈ attrs) {key : String}
    (hkey : key ∈ a.names) : (attrs.find? fun b => b.names.contains key) = some a := by
  induction attrs with
  | nil => cases ha
  | cons b attrs ih =>
    rw [flatMap_cons, nodup_append'] at h
    obtain ⟨-, htail, hdisjoint⟩ := h
    rcases mem_cons.1 ha with rfl | hmem
    · rw [find?_cons_of_pos (by simpa using hkey)]
    · have hother : key ∉ b.names := fun hb =>
        hdisjoint hb (mem_flatMap.2 ⟨a, hmem, hkey⟩)
      rw [find?_cons_of_neg (by simpa using hother), ih htail hmem]

structure Names (s : Schema) (k : String × String) (x : Attr × String) : Prop where
  mem : x.1 ∈ s.attrs
  name_mem : k.1 ∈ x.1.names
  value_eq : k.2 = x.2
  name_plain : Plain k.1
  value_plain : Plain x.2

theorem readParts_allNamed (hs : (s.attrs.flatMap names).Nodup) {byName : Bool}
    {xs : List (Attr × String)} (h : Forall₂ s.Names ks xs)
    (hlength : ks.length ≤ rest.length) :
    s.readParts e byName rest as (ks.map fun k => k.1 ++ "=" ++ k.2) = .ok bs ↔
      assign e as xs = .ok bs := by
  induction h generalizing byName rest as with
  | nil => cases rest <;> rfl
  | @cons k x ks xs hk _ ih =>
    cases rest with
    | nil => cases hlength
    | cons a rest =>
      have hparts : parts '=' (k.1 ++ "=" ++ k.2) = [k.1, x.2] := by
        rw [hk.value_eq]
        exact parts_pair hk.name_plain.2 hk.value_plain.2
      rw [map_cons, readParts_named hparts (find?_names hs hk.mem hk.name_mem), bind_eq_ok,
        assign_cons_eq_ok]
      exact exists_congr fun w => and_congr_right fun _ => ih (Nat.le_of_succ_le_succ hlength)

/-- The values of attributes: those read from the texts that are given, and else the defaults. -/
def Fills (e : Extent) (attrs : List Attr) (defaults : Attributes) (given : List String)
    (r : List (String × Raw)) : Prop :=
  r.length = attrs.length ∧ ∀ (i : Nat) (a : Attr), attrs[i]? = some a → ∃ v,
    r[i]? = some (a.name, v) ∧
      ((∃ text, given[i]? = some text ∧ a.read e (.text text) = .ok v) ∨
        given[i]? = none ∧ defaults[i]? = some (a.name, some v))

theorem fills_cons {d : Option Raw} {given : List String} :
    Fills e (a :: attrs) ((a.name, d) :: as) given r ↔ ∃ v r', r = (a.name, v) :: r' ∧
      ((∃ text, given[0]? = some text ∧ a.read e (.text text) = .ok v) ∨
        given[0]? = none ∧ d = some v) ∧ Fills e attrs as given.tail r' := by
  constructor
  · rintro ⟨hlength, h⟩
    obtain ⟨v, hv, hgiven⟩ := h 0 a rfl
    cases r with
    | nil => cases hlength
    | cons q r =>
      obtain rfl := Option.some.inj hv
      refine ⟨v, r, rfl, by simpa using hgiven, Nat.succ.inj hlength, fun i b hb => ?_⟩
      simpa using h (i + 1) b hb
  · rintro ⟨v, r, rfl, hgiven, hlength, h⟩
    refine ⟨congrArg Nat.succ hlength, fun i b hb => ?_⟩
    cases i with
    | zero =>
      obtain rfl := Option.some.inj hb
      exact ⟨v, rfl, by simpa using hgiven⟩
    | succ i => simpa using h i b hb

theorem assign_zip_iff (hnodup : (attrs.map name).Nodup)
    (has : as.map Prod.fst = attrs.map name) :
    assign e as (attrs.zip vs) = .ok (r.map fun p => (p.1, some p.2)) ↔ Fills e attrs as vs r := by
  induction attrs generalizing as vs r with
  | nil =>
    obtain rfl := map_eq_nil_iff.1 has
    change Except.ok [] = Except.ok _ ↔ _
    rw [Except.ok.injEq, eq_comm, map_eq_nil_iff]
    simp [Fills]
  | cons a attrs ih =>
    cases as with
    | nil => cases has
    | cons p as =>
      obtain ⟨name, d⟩ := p
      obtain ⟨rfl, htail⟩ := cons.inj has
      obtain ⟨hfresh, hnodup⟩ := nodup_cons.1 hnodup
      rw [fills_cons]
      simp only [← ih hnodup htail]
      cases vs with
      | nil =>
        rw [zip_nil_right, tail_nil, zip_nil_right]
        change Except.ok _ = Except.ok _ ↔ ∃ v r', _ ∧ _ ∧ Except.ok _ = Except.ok _
        simp only [Except.ok.injEq]
        constructor
        · intro h
          cases r with
          | nil => cases h
          | cons q r =>
            obtain ⟨hhead, htail⟩ := cons.inj h
            obtain ⟨hname, hvalue⟩ := Prod.mk.inj hhead
            exact ⟨q.2, r, by rw [hname], .inr ⟨rfl, hvalue⟩, htail⟩
        · rintro ⟨v, r, rfl, ⟨text, htext, -⟩ | ⟨-, rfl⟩, h⟩
          · cases htext
          · rw [h]
            rfl
      | cons v vs =>
        have hkeep (w : Raw) : set ((a.name, d) :: as) a.name w = (a.name, some w) :: as := by
          rw [set_cons, set_of_notMem (htail ▸ hfresh), if_pos (by simp)]
        have hskip : ∀ x ∈ attrs.zip vs, x.1.name ≠ a.name := by
          intro x hx heq
          exact hfresh (heq ▸ mem_map_of_mem (of_mem_zip hx).1)
        simp only [zip_cons_cons, assign_cons_eq_ok, hkeep, assign_skip hskip]
        constructor
        · rintro ⟨w, hw, cs, hcs, h⟩
          cases r with
          | nil => cases h
          | cons q r =>
            obtain ⟨hhead, rfl⟩ := cons.inj h
            obtain ⟨hname, hvalue⟩ := Prod.mk.inj hhead
            refine ⟨q.2, r, by rw [← hname], .inl ⟨v, rfl, ?_⟩, hcs⟩
            rw [Option.some.inj hvalue]
            exact hw
        · rintro ⟨w, r, rfl, ⟨text, htext, hw⟩ | ⟨hnone, -⟩, h⟩
          · cases htext
            exact ⟨w, hw, _, h, rfl⟩
          · cases hnone

theorem map_fst_of_defaults (h : s.defaults e readDefaults = .ok as) :
    as.map Prod.fst = s.attrs.map name := by
  refine map_eq_of_forall₂ ((mapM_eq_ok.1 h).imp fun a p hp => ?_)
  split at hp
  · dsimp only at hp
    split at hp
    · obtain ⟨v, -, hv⟩ := bind_eq_ok.1 hp
      rw [← pure_eq_ok.1 hv]
    · rw [pure_bind] at hp
      rw [← pure_eq_ok.1 hp]
  · cases hp
    rfl

theorem read_eq_ok {text : String} (htext : text ≠ "") :
    s.read e readDefaults text = .ok r ↔ ∃ as, s.defaults e readDefaults = .ok as ∧
      s.readParts e false s.attrs as (parts ',' text) =
        .ok (r.map fun p => (p.1, some p.2)) := by
  simp only [read, if_neg htext, bind_eq_ok, complete_eq_ok]
  constructor
  · rintro ⟨as, has, bs, hbs, rfl⟩
    exact ⟨as, has, hbs⟩
  · rintro ⟨as, has, hbs⟩
    exact ⟨as, has, _, hbs, rfl⟩

theorem nodup_name (h : (attrs.flatMap names).Nodup) : (attrs.map name).Nodup := by
  induction attrs with
  | nil => exact .nil
  | cons a attrs ih =>
    rw [flatMap_cons, nodup_append'] at h
    obtain ⟨-, htail, hdisjoint⟩ := h
    refine nodup_cons.2 ⟨fun hmem => ?_, ih htail⟩
    obtain ⟨b, hb, heq⟩ := mem_map.1 hmem
    exact hdisjoint (.head _) (mem_flatMap.2 ⟨b, hb, heq ▸ .head _⟩)

theorem read_positional_iff (hs : (s.attrs.map name).Nodup) {v : String} (hv : v ≠ "")
    (hplain : ∀ u ∈ v :: vs, Plain u) (hlength : (v :: vs).length ≤ s.attrs.length) :
    s.read e readDefaults (positional (v :: vs)) = .ok r ↔
      ∃ as, s.defaults e readDefaults = .ok as ∧ Fills e s.attrs as (v :: vs) r := by
  have hcomma : ∀ u ∈ v :: vs, ',' ∉ u.toList := fun u hu => (hplain u hu).1
  have htext : positional (v :: vs) ≠ "" :=
    intercalate_ne_empty (cons_ne_nil v vs) hcomma fun h => hv (cons.inj h).1
  rw [read_eq_ok htext, positional, parts_intercalate (cons_ne_nil v vs) hcomma]
  refine exists_congr fun as => and_congr_right fun has => ?_
  rw [readParts_positional hlength hplain, assign_zip_iff hs (map_fst_of_defaults has)]

theorem names_zip (h : Forall₂ (fun a n => n ∈ a.names ∧ Plain n) attrs ns)
    (hattrs : ∀ a ∈ attrs, a ∈ s.attrs) (hplain : ∀ v ∈ vs, Plain v) :
    Forall₂ s.Names (ns.zip vs) (attrs.zip vs) := by
  induction h generalizing vs with
  | nil => exact .nil
  | @cons a n attrs ns hname _ ih =>
    cases vs with
    | nil => exact .nil
    | cons v vs =>
      obtain ⟨ha, hattrs⟩ := forall_mem_cons.1 hattrs
      obtain ⟨hv, hplain⟩ := forall_mem_cons.1 hplain
      exact .cons ⟨ha, hname.1, rfl, hname.2, hv⟩ (ih hattrs hplain)

theorem read_named_iff (hs : (s.attrs.flatMap names).Nodup) (hvs : vs ≠ [])
    (hplain : ∀ u ∈ vs, Plain u) (hlength : vs.length ≤ s.attrs.length)
    (hns : Forall₂ (fun a n => n ∈ a.names ∧ Plain n) (s.attrs.take vs.length) ns)
    (hks : ks.Perm (ns.zip vs)) :
    s.read e readDefaults (named ks) = .ok r ↔
      ∃ as, s.defaults e readDefaults = .ok as ∧ Fills e s.attrs as vs r := by
  have hzip : s.attrs.zip vs = (s.attrs.take vs.length).zip vs := by
    rw [zip_eq_zip_take_min, Nat.min_eq_right hlength, take_length]
  have hcount : (s.attrs.take vs.length).length = vs.length := length_take_of_le hlength
  obtain ⟨xs, hxs, hperm⟩ := perm_comp_forall₂ hks
    (names_zip hns (fun _ => mem_of_mem_take) hplain)
  have hnodup : (xs.map (·.1.name)).Nodup := by
    have hfst : ((s.attrs.take vs.length).zip vs).map (·.1.name) =
        (((s.attrs.take vs.length).zip vs).map Prod.fst).map name := by
      rw [map_map]
      rfl
    rw [(hperm.map _).nodup_iff, hfst, map_fst_zip (Nat.le_of_eq hcount)]
    exact (nodup_name hs).sublist ((take_sublist _ _).map _)
  have hcomma : ∀ part ∈ ks.map (fun k => k.1 ++ "=" ++ k.2), ',' ∉ part.toList := by
    refine forall_mem_map.2 fun k hk => ?_
    obtain ⟨x, -, hx⟩ := exists_of_mem_right hxs.flip hk
    have hvalue := hx.value_plain.1
    rw [← hx.value_eq] at hvalue
    simp [hx.name_plain.1, hvalue]
  have hne : ks.map (fun k => k.1 ++ "=" ++ k.2) ≠ [] := by
    intro h
    have hempty := hks.length_eq
    rw [map_eq_nil_iff.1 h, length_zip, ← hns.length_eq, hcount, Nat.min_self] at hempty
    exact hvs (length_eq_zero_iff.1 hempty.symm)
  have htext : named ks ≠ "" := by
    refine intercalate_ne_empty hne hcomma fun h => ?_
    obtain ⟨k, -, hk⟩ := map_eq_singleton_iff.1 h
    simpa using congrArg String.toList hk
  have hshort : ks.length ≤ s.attrs.length := by
    rw [hks.length_eq, length_zip]
    exact Nat.le_trans (Nat.min_le_right _ _) hlength
  rw [read_eq_ok htext, named, parts_intercalate hne hcomma]
  refine exists_congr fun as => and_congr_right fun has => ?_
  rw [readParts_allNamed hs hxs hshort, assign_perm hperm hnodup, ← hzip,
    assign_zip_iff (nodup_name hs) (map_fst_of_defaults has)]

/-- Giving values by position comes to the same as giving them by any of the names of the
attributes, in any order. -/
theorem positional_iff_named (s : Schema) (hs : (s.attrs.flatMap names).Nodup) (e : Extent)
    (readDefaults : Bool) {v : String} {vs ns : List String} (hv : v ≠ "")
    (hplain : ∀ u ∈ v :: vs, Plain u) (hlength : (v :: vs).length ≤ s.attrs.length)
    (hns : Forall₂ (fun a n => n ∈ a.names ∧ Plain n) (s.attrs.take (v :: vs).length) ns)
    {ks : List (String × String)} (hks : ks.Perm (ns.zip (v :: vs))) (r : List (String × Raw)) :
    (s.read e readDefaults (positional (v :: vs)) = .ok r ↔
      s.read e readDefaults (named ks) = .ok r) ∧
    (s.read e readDefaults (named ks) = .ok r ↔
      ∃ as, s.defaults e readDefaults = .ok as ∧ Fills e s.attrs as (v :: vs) r) := by
  have hnamed : s.read e readDefaults (named ks) = .ok r ↔
      ∃ as, s.defaults e readDefaults = .ok as ∧ Fills e s.attrs as (v :: vs) r :=
    read_named_iff hs (cons_ne_nil v vs) hplain hlength hns hks
  exact ⟨(read_positional_iff (nodup_name hs) hv hplain hlength).trans hnamed.symm, hnamed⟩

theorem names_plain : ∀ s ∈ Method.schemas ++ Setting.schemas ++ Export.schemas,
    (s.attrs.flatMap names).Nodup ∧ ∀ n ∈ s.attrs.flatMap names, Plain n := by
  decide +kernel

theorem positional_iff_named_audio :
    Method.audioSchema.read .none false "1,all" =
      .ok [("threshold", .number (.float 1)), ("stream", .text "all")] ∧
    Method.audioSchema.read .none false "track=all,threshold=1" =
      .ok [("threshold", .number (.float 1)), ("stream", .text "all")] := by
  have hs := (names_plain Method.audioSchema (.head _)).1
  have hfills : Fills .none Method.audioSchema.attrs
      [("threshold", some (.number (.float 0.04))), ("stream", some (.number 0))] ["1", "all"]
      [("threshold", .number (.float 1)), ("stream", .text "all")] := by
    refine fills_cons.2 ⟨_, _, rfl, .inl ⟨_, rfl, rfl⟩, ?_⟩
    refine fills_cons.2 ⟨_, _, rfl, .inl ⟨_, rfl, rfl⟩, rfl, fun i a ha => ?_⟩
    cases ha
  obtain ⟨hsame, hnamed⟩ := @positional_iff_named Method.audioSchema hs .none false "1" ["all"]
    ["threshold", "track"] (by decide) (by decide) (by decide)
    (.cons (by decide) (.cons (by decide) .nil)) [("track", "all"), ("threshold", "1")]
    (.swap _ _ _) [("threshold", .number (.float 1)), ("stream", .text "all")]
  have hread := hnamed.2 ⟨_, rfl, hfills⟩
  exact ⟨hsame.2 hread, hread⟩

end Schema

end Jumpcut.Setting
