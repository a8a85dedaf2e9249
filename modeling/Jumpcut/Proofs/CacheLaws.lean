import Jumpcut.Proofs.JsonLaws
import Jumpcut.Proofs.KeyLaws
import Jumpcut.Proofs.PathLaws

namespace Jumpcut

open Outcome List Json Session Number Levels

def LevelKind.has : LevelKind → Number → Bool
  | .share, .float _ => true
  | .count, .int _ => true
  | _, _ => false

theorem LevelKind.keep_of_has {kind : LevelKind} {x : Number} (h : kind.has x) :
    (ofNumber x).number? = some x ∧ kind.keep x = .ok x := by
  cases kind <;> cases x <;> first | exact ⟨rfl, rfl⟩ | cases h

namespace Levels

def Typed (l : Levels) : Prop := ∀ x ∈ l.values, l.kind.has x

instance (l : Levels) : Decidable l.Typed :=
  inferInstanceAs (Decidable (∀ x ∈ l.values, l.kind.has x))

theorem ofJson_toJson {l : Levels} (h : l.Typed) : ofJson l.toJson = .ok l := by
  obtain ⟨kind, values⟩ := l
  have hkind : LevelKind.named kind.name = .ok kind := by cases kind <;> rfl
  have harr : (toJson ⟨kind, values⟩).member "arr" = .ok (.arr (values.map ofNumber)) := rfl
  have htype : (toJson ⟨kind, values⟩).member "type" = .ok (.str kind.name) := rfl
  simp only [ofJson, harr, htype, elements, ok_bind, hkind]
  refine bind_eq_ok.2 ⟨values, mapM_eq_ok.2 ?_, rfl⟩
  rw [forall₂_map_left_iff, forall₂_same]
  intro x hx
  obtain ⟨hnumber, hkeep⟩ := LevelKind.keep_of_has (h x hx)
  rw [hnumber]
  exact hkeep

end Levels

namespace Cache

def entryAt (j : Json) (path key : String) : Option Json := (j.get? path).bind (get? key)

def Wellformed (j : Json) : Prop :=
  ∃ files, j = .obj files ∧
    ∀ path entries, files.lookup path = some entries → ∃ es, entries = .obj es

theorem find_eq {j : Json} (h : Wellformed j) (path : String) {k : Key} {key : String}
    (hk : k.text = .ok key) : find j path k = (entryAt j path key).elim (.ok none) fun v => (ofJson v).map some := by
  obtain ⟨files, rfl, hfiles⟩ := h
  have hholds (ms : List (String × Json)) (name : String) :
      (obj ms).holds name = .ok (ms.lookup name).isSome := by rw [isSome_lookup]; rfl
  rw [find, hholds, entryAt, get?]
  cases hentries : files.lookup path with
  | none => rfl
  | some entries =>
    obtain ⟨es, rfl⟩ := hfiles path entries hentries
    have hmember : (obj files).member path = .ok (.obj es) := by
      simp only [member, hentries]
    simp only [Option.isSome_some, ok_bind, if_true, hk, hmember, hholds, Option.bind_some, get?]
    cases hvalue : es.lookup key with
    | none => rfl
    | some v =>
      have hmember : (obj es).member key = .ok v := by simp only [member, hvalue]
      simp only [Option.isSome_some, if_true, hmember, ok_bind, Option.elim_some]
      cases ofJson v <;> rfl

section Put

variable {files files' es es' : List (String × Json)} {path key : String} {v : Json}

theorem entryAt_put (hold : ∀ k, (files.lookup path).bind (get? k) = es.lookup k)
    (hfiles : ∀ p, files'.lookup p = if p = path then some (.obj es') else files.lookup p)
    (hentries : ∀ k, es'.lookup k = if k = key then some v else es.lookup k) (p k : String) :
    entryAt (.obj files') p k =
      if p = path ∧ k = key then some v else entryAt (.obj files) p k := by
  simp only [entryAt, get?, hfiles]
  by_cases hp : p = path
  · subst hp
    simp only [if_true, Option.bind_some, get?, hentries, true_and, hold]
  · simp only [hp, if_false, false_and]

theorem wellformed_put (hfiles : ∀ p, files'.lookup p = if p = path then some (.obj es') else
      files.lookup p) (h : Wellformed (.obj files)) : Wellformed (.obj files') := by
  obtain ⟨_, ⟨⟩, h⟩ := h
  refine ⟨files', rfl, ?_⟩
  intro p entries hentries
  rw [hfiles] at hentries
  split at hentries
  · exact ⟨es', (Option.some.inj hentries).symm⟩
  · exact h p entries hentries

end Put

theorem store_ok {j : Json} (h : Wellformed j) (path key : String) (l : Levels) :
    ∃ j', store j path key l = .ok j' ∧ Wellformed j' ∧ ∀ p k,
      entryAt j' p k = if p = path ∧ k = key then some l.toJson else entryAt j p k := by
  obtain ⟨files, rfl, hshape⟩ := id h
  cases hentries : files.lookup path with
  | none =>
    have hfiles (p : String) : (files ++ [(path, obj [(key, l.toJson)])]).lookup p =
        if p = path then some (.obj [(key, l.toJson)]) else files.lookup p := by
      by_cases hp : p = path
      · rw [if_pos hp, hp, lookup_append, hentries, Option.none_or, lookup_pair_cons,
          if_pos rfl]
      · rw [if_neg hp, lookup_append, lookup_pair_cons, if_neg hp, lookup_nil, Option.or_none]
    refine ⟨.obj (files ++ [(path, .obj [(key, l.toJson)])]), by simp only [store, hentries]; rfl,
      wellformed_put hfiles h, entryAt_put (by simp [hentries]) hfiles fun k => lookup_pair_cons ..⟩
  | some entries =>
    obtain ⟨es, rfl⟩ := hshape path entries hentries
    have hfiles (p : String) := lookup_put files path p (.obj (insert es key l.toJson))
    refine ⟨.obj (insert files path (.obj (insert es key l.toJson))),
      by simp only [store, hentries]; rfl, wellformed_put hfiles h,
      entryAt_put (by simp [hentries, get?]) hfiles fun k => lookup_put ..⟩

def latest (calls : List (Entry × Levels)) (path key : String) : Option Levels :=
  (calls.reverse.find? fun c => c.1.path == path && c.1.key == key).map (·.2)

def document (calls : List (Entry × Levels)) : Except Fault Json :=
  calls.foldlM (fun j c => store j c.1.path c.1.key c.2) (.obj [])

theorem document_concat (calls : List (Entry × Levels)) (c : Entry × Levels) :
    document (calls ++ [c]) = document calls >>= fun j => store j c.1.path c.1.key c.2 := by
  simp [document]

theorem document_ok (calls : List (Entry × Levels)) : ∃ j, document calls = .ok j ∧ Wellformed j ∧
    ∀ p k, entryAt j p k = (latest calls p k).map toJson := by
  induction calls using reverseRecOn with
  | nil => exact ⟨.obj [], rfl, ⟨[], rfl, by simp⟩, fun p k => rfl⟩
  | append_singleton calls c ih =>
    obtain ⟨j, hj, hshape, hentries⟩ := ih
    obtain ⟨j', hj', hshape', hentries'⟩ := store_ok hshape c.1.path c.1.key c.2
    refine ⟨j', by rw [document_concat, hj, ok_bind, hj'], hshape', ?_⟩
    intro p k
    rw [hentries', hentries, latest, latest, reverse_append, reverse_singleton,
      singleton_append, find?_cons]
    by_cases hsame : p = c.1.path ∧ k = c.1.key
    · rw [if_pos hsame]
      simp [hsame.1, hsame.2]
    · rw [if_neg hsame]
      have hother : (c.1.path == p && c.1.key == k) = false := by
        rw [Bool.eq_false_iff]
        intro hboth
        simp only [Bool.and_eq_true, beq_iff_eq] at hboth
        exact hsame ⟨hboth.1.symm, hboth.2.symm⟩
      rw [hother]

theorem find_document {calls : List (Entry × Levels)} (htyped : ∀ c ∈ calls, c.2.Typed) {j : Json}
    (hj : document calls = .ok j) (path : String) {k : Key} {key : String}
    (hk : k.text = .ok key) : find j path k = .ok (latest calls path key) := by
  obtain ⟨j', hj', hshape, hentries⟩ := document_ok calls
  obtain rfl : j' = j := Except.ok.inj (hj'.symm.trans hj)
  rw [find_eq hshape path hk, hentries]
  cases hlatest : latest calls path key with
  | none => rfl
  | some l =>
    have hl : l.Typed := by
      obtain ⟨c, hc, rfl⟩ := Option.map_eq_some_iff.1 hlatest
      exact htyped c (mem_reverse.1 (mem_of_find?_eq_some hc))
    simp only [Option.map_some, Option.elim_some, ofJson_toJson hl]
    rfl

section File

variable {temp : String} {w : Workspace} {found : Option Json} {calls : List (Entry × Levels)}

/-- The document can be written beside the temporary directory: its directory is there or can be
made, and no directory is in its place. -/
structure Ready (temp : String) (w : Workspace) : Prop where
  place : w.tree.isDir (absolutePath (dirOf temp)) ∨ ¬ w.tree.exists_ (absolutePath (dirOf temp)) ∧
    w.tree.isDir (Path.dir (absolutePath (dirOf temp)))
  free : ¬ w.tree.isDir (absolutePath (fileOf temp))

theorem isAbsolute_workDir : Path.isAbsolute workDir := (Path.isAbsolute_iff _).2 ⟨_, rfl⟩

theorem dir_fileOf (temp : String) :
    Path.dir (absolutePath (fileOf temp)) = absolutePath (dirOf temp) :=
  Path.dir_absolute_join isAbsolute_workDir _ (by decide) (by decide)

theorem fileOf_ne_dirOf (temp : String) : absolutePath (fileOf temp) ≠ absolutePath (dirOf temp) :=
  Path.absolute_join_ne isAbsolute_workDir _ (by decide) (by decide)

theorem load_of_not_isFile (h : ¬ w.tree.isFile (absolutePath (fileOf temp))) :
    load temp w = .ok none w := by
  have hfile : isFile (fileOf temp) w = .ok false w := by
    rw [← Bool.eq_false_iff.2 h]
    rfl
  rw [load, run_bind_of_ok hfile]
  rfl

theorem load_of_read? {text : String} {j : Json}
    (h : w.tree.read? (absolutePath (fileOf temp)) = some text.toUTF8) (hj : FoundIn text j) :
    load temp w = .ok (some j) w := by
  have hfile : isFile (fileOf temp) w = .ok true w := by
    have hisFile : w.tree.isFile (absolutePath (fileOf temp)) = true := by
      rw [Tree.isFile, h]
      rfl
    rw [← hisFile]
    rfl
  rw [load, run_bind_of_ok hfile, if_pos rfl, run_bind_of_ok (readText_ok h), hj]
  rfl

theorem stored_of_not_isFile (h : ¬ w.tree.isFile (absolutePath (fileOf temp)))
    (path : String) (k : Key) : stored temp path k w = .ok none w := by
  rw [stored, run_bind_of_ok (load_of_not_isFile h)]
  rfl

theorem stored_of_load (h : load temp w = .ok found w) (path : String) (k : Key) :
    stored temp path k w = Session.ofExcept (find (found.getD (.obj [])) path k) w := by
  rw [stored, run_bind_of_ok h]
  cases found <;> rfl

theorem Ready.save_eq (h : Ready temp w) (path : String) (k : Key) (l : Levels) : ∃ w₁,
    w₁.tree.files = w.tree.files ∧ w₁.tree.isDir (absolutePath (dirOf temp)) ∧
      ¬ w₁.tree.isDir (absolutePath (fileOf temp)) ∧
      save temp path k l w = (do
        let key ← Session.ofExcept k.text
        let found ← load temp
        let j ← Session.ofExcept (store (found.getD (.obj [])) path key l)
        writeText (fileOf temp) j.compact
        return l : Session Levels) w₁ := by
  rcases h.place with hdir | ⟨hnew, hparent⟩
  · have hexists : exists_ (dirOf temp) w = .ok true w := by
      have htree : w.tree.exists_ (absolutePath (dirOf temp)) = true := by simp [Tree.exists_, hdir]
      rw [← htree]
      rfl
    refine ⟨w, rfl, hdir, h.free, ?_⟩
    rw [save, run_bind_of_ok hexists]
    rfl
  · have hexists : exists_ (dirOf temp) w = .ok false w := by
      rw [← Bool.eq_false_iff.2 hnew]
      rfl
    have hmake : makeDir (dirOf temp) w =
        .ok () { w with tree := w.tree.addDir (absolutePath (dirOf temp)) } := by
      have hget : (get : Session Workspace) w = .ok w w := rfl
      rw [makeDir, run_bind_of_ok hget, if_neg hnew, if_pos hparent]
      rfl
    have hmissing : ¬ w.tree.isDir (absolutePath (dirOf temp)) := fun hdir => hnew (by
      simp [Tree.exists_, hdir])
    have hadd : w.tree.addDir (absolutePath (dirOf temp)) =
        { w.tree with dirs := w.tree.dirs ++ [absolutePath (dirOf temp)] } := if_neg hmissing
    refine ⟨{ w with tree := w.tree.addDir (absolutePath (dirOf temp)) }, ?_, ?_, ?_, ?_⟩
    · simp only [hadd]
    · simp [hadd, Tree.isDir]
    · have hfree := h.free
      simp only [Tree.isDir, contains_iff_mem] at hfree
      simp [hadd, Tree.isDir, hfree, fileOf_ne_dirOf]
    · rw [save, run_bind_of_ok hexists]
      exact run_bind_of_ok hmake

theorem Ready.save_ok (h : Ready temp w) {j : Json} {path key : String} {k : Key} {l : Levels}
    (hk : k.text = .ok key)
    (hload : ∀ w₁ : Workspace, w₁.tree.files = w.tree.files → load temp w₁ = .ok found w₁)
    (hstore : store (found.getD (.obj [])) path key l = .ok j) :
    ∃ w', save temp path k l w = .ok l w' ∧ Ready temp w' ∧
      w'.tree.read? (absolutePath (fileOf temp)) = some j.compact.toUTF8 := by
  obtain ⟨w₁, hfiles, hdir, hfree, hsave⟩ := h.save_eq path k l
  have hplace : w₁.tree.isDir (Path.dir (absolutePath (fileOf temp))) := by rwa [dir_fileOf]
  have hwrite := writeText_ok j.compact hplace hfree
  refine ⟨{ w₁ with tree := w₁.tree.put (absolutePath (fileOf temp)) j.compact.toUTF8 }, ?_,
    ⟨.inl ?_, ?_⟩, ?_⟩
  · rw [hsave, hk, ofExcept_ok, pure_bind, run_bind_of_ok (hload w₁ hfiles), hstore, ofExcept_ok,
      pure_bind]
    exact run_bind_of_ok hwrite
  · rw [Tree.isDir_put]
    exact hdir
  · rw [Tree.isDir_put]
    exact hfree
  · rw [Tree.read?_put, if_pos rfl]

theorem Ready.save_long (h : Ready temp w) {e : Entry}
    (hlong : ¬ (isWritable e.tb.num ∧ isWritable e.tb.den)) (l : Levels) :
    ∃ w', save temp e.path e.toKey l w = .error .badValue w' ∧ w'.tree.files = w.tree.files := by
  obtain ⟨w', hfiles, -, -, hsave⟩ := h.save_eq e.path e.toKey l
  refine ⟨w', ?_, hfiles⟩
  rw [hsave, Entry.text_of_long hlong]
  rfl

theorem load_fresh (h : ¬ w.tree.isFile (absolutePath (fileOf temp))) (w₁ : Workspace)
    (hfiles : w₁.tree.files = w.tree.files) : load temp w₁ = .ok none w₁ := by
  apply load_of_not_isFile
  rwa [Tree.isFile, Tree.read?, hfiles]

theorem Ready.save_fresh (h : Ready temp w) (hfresh : ¬ w.tree.isFile (absolutePath (fileOf temp)))
    (path : String) {k : Key} {key : String} (hk : k.text = .ok key) (l : Levels) :
    ∃ w', save temp path k l w = .ok l w' := by
  have hstore : store (.obj []) path key l = .ok (.obj [(path, .obj [(key, l.toJson)])]) := rfl
  obtain ⟨w', hsave, -, -⟩ := h.save_ok hk (load_fresh hfresh) hstore
  exact ⟨w', hsave⟩

structure Holds (temp : String) (calls : List (Entry × Levels)) (w : Workspace) : Prop where
  ready : Ready temp w
  file : calls = [] ∧ ¬ w.tree.isFile (absolutePath (fileOf temp)) ∨ ∃ text j,
    w.tree.read? (absolutePath (fileOf temp)) = some text.toUTF8 ∧ FoundIn text j ∧
      document calls = .ok j

theorem Holds.exists_load (h : Holds temp calls w) : ∃ found,
    (∀ w₁ : Workspace, w₁.tree.files = w.tree.files → load temp w₁ = .ok found w₁) ∧
      document calls = .ok (found.getD (.obj [])) := by
  rcases h.file with ⟨rfl, hfile⟩ | ⟨text, j, hread, hfound, hj⟩
  · exact ⟨none, load_fresh hfile, rfl⟩
  · refine ⟨some j, fun w₁ hfiles => load_of_read? ?_ hfound, hj⟩
    rwa [Tree.read?, hfiles]

theorem Holds.save (h : Holds temp calls w) {c : Entry × Levels} (hc : c.1.Proper)
    (hjson : ∀ j, document (calls ++ [c]) = .ok j → FoundIn j.compact j) :
    ∃ w', save temp c.1.path c.1.toKey c.2 w = .ok c.2 w' ∧ Holds temp (calls ++ [c]) w' := by
  obtain ⟨found, hload, hdocument⟩ := h.exists_load
  obtain ⟨j, hj, -, -⟩ := document_ok (calls ++ [c])
  have hstore : store (found.getD (.obj [])) c.1.path c.1.key c.2 = .ok j := by
    rwa [document_concat, hdocument, ok_bind] at hj
  obtain ⟨w', hsave, hready, hread⟩ := h.ready.save_ok hc.text_eq hload hstore
  exact ⟨w', hsave, hready, .inr ⟨j.compact, j, hread, hjson j hj, hj⟩⟩

theorem Holds.run {before rest : List (Entry × Levels)} (h : Holds temp before w)
    (hproper : ∀ c ∈ rest, c.1.Proper)
    (hjson : ∀ calls j, calls <+: before ++ rest → document calls = .ok j →
      FoundIn j.compact j) :
    ∃ w', (rest.mapM fun c => Cache.save temp c.1.path c.1.toKey c.2) w =
        .ok (rest.map (·.2)) w' ∧
      Holds temp (before ++ rest) w' := by
  induction rest generalizing before w with
  | nil => exact ⟨w, rfl, by rwa [append_nil]⟩
  | cons c rest ih =>
    have hassoc : before ++ c :: rest = before ++ [c] ++ rest := by simp
    rw [hassoc] at hjson ⊢
    obtain ⟨hc, hproper⟩ := forall_mem_cons.1 hproper
    obtain ⟨w₁, hsave, hholds⟩ := h.save hc fun j => hjson _ j (prefix_append ..)
    obtain ⟨w', hrun, hend⟩ := ih hholds hproper hjson
    refine ⟨w', ?_, hend⟩
    rw [mapM_cons, run_bind_of_ok hsave, run_bind_of_ok hrun]
    rfl

theorem Holds.stored (h : Holds temp calls w) (htyped : ∀ c ∈ calls, c.2.Typed) {q : Entry}
    (hq : q.Proper) : stored temp q.path q.toKey w = .ok (latest calls q.path q.key) w := by
  obtain ⟨found, hload, hdocument⟩ := h.exists_load
  rw [stored_of_load (hload w rfl), find_document htyped hdocument _ hq.text_eq]
  rfl

end File

section Latest

variable {calls : List (Entry × Levels)} (hcalls : ∀ c ∈ calls, c.1.Proper) {q : Entry}
  (hq : q.Proper)
include hcalls hq

theorem latest_eq_none (hother : ∀ c ∈ calls, ¬ c.1.Same q) : latest calls q.path q.key = none := by
  rw [latest, Option.map_eq_none_iff, find?_eq_none]
  intro c hc
  rw [mem_reverse] at hc
  simpa [Entry.same_iff (hcalls c hc) hq] using hother c hc

theorem latest_eq_some {before after : List (Entry × Levels)} {c : Entry × Levels}
    (hsplit : calls = before ++ c :: after) (hsame : c.1.Same q)
    (hother : ∀ d ∈ after, ¬ d.1.Same q) : latest calls q.path q.key = some c.2 := by
  subst hsplit
  have hafter := latest_eq_none (fun d hd => hcalls d (by simp [hd])) hq hother
  obtain ⟨hpath, hkey⟩ := (Entry.same_iff (hcalls c (by simp)) hq).1 hsame
  rw [latest, Option.map_eq_none_iff] at hafter
  rw [latest, reverse_append, reverse_cons, append_assoc, find?_append, hafter]
  simp [hpath, hkey]

end Latest

/-- From no file on, the levels that are found for an analysis are those of the last call that kept
some for it, and none without such a call. Nothing is kept at a time base that is too long to be
written. -/
theorem stored_after_saves {temp : String} {calls : List (Entry × Levels)} {w : Workspace}
    (hready : Ready temp w) (hfresh : ¬ w.tree.isFile (absolutePath (fileOf temp)))
    (hcalls : ∀ c ∈ calls, c.1.Proper ∧ c.2.Typed)
    (hjson : ∀ before j, before <+: calls → document before = .ok j → FoundIn j.compact j) :
    ∃ w', (calls.mapM fun c => save temp c.1.path c.1.toKey c.2) w = .ok (calls.map (·.2)) w' ∧
      (∀ q : Entry, q.Proper →
        ((∀ c ∈ calls, ¬ c.1.Same q) → stored temp q.path q.toKey w' = .ok none w') ∧
        ∀ before c after, calls = before ++ c :: after → c.1.Same q → (∀ d ∈ after, ¬ d.1.Same q) →
          stored temp q.path q.toKey w' = .ok (some c.2) w') ∧
      ∀ (e : Entry) (l : Levels), ¬ (isWritable e.tb.num ∧ isWritable e.tb.den) →
        ∃ w₁, save temp e.path e.toKey l w' = .error .badValue w₁ ∧
          w₁.tree.files = w'.tree.files := by
  have hempty : Holds temp [] w := ⟨hready, .inl ⟨rfl, hfresh⟩⟩
  have hproper (c) (hc : c ∈ calls) := (hcalls c hc).1
  obtain ⟨w', hrun, hholds⟩ := hempty.run hproper hjson
  refine ⟨w', hrun, fun q hq => ?_, fun e l hlong => hholds.ready.save_long hlong l⟩
  rw [hholds.stored (fun c hc => (hcalls c hc).2) hq]
  constructor
  · intro hother
    rw [nil_append, latest_eq_none hproper hq hother]
  · intro before c after hsplit hsame hother
    rw [nil_append, latest_eq_some hproper hq hsplit hsame hother]

def emptyDesk : Workspace where
  tree := ⟨[], ["/work"]⟩
  media := []
  programs := ⟨"", "", "", false, none, none, "", false, "", []⟩
  platform := .linux

theorem ready_emptyDesk : Ready "" emptyDesk := ⟨.inr (by decide +kernel), by decide +kernel⟩

theorem not_isFile_emptyDesk (p : String) : ¬ emptyDesk.tree.isFile p := by
  simp [emptyDesk, Tree.isFile, Tree.read?]

def differences (path : String) (threshold stream : Int) : Entry :=
  ⟨⟨"pixeldiff", 1, [("threshold", .number (.int threshold)), ("stream", .number (.int stream))]⟩,
    path⟩

def recounts : List (Entry × Levels) :=
  [(differences "a" 1 0, ⟨.count, [.int 3]⟩), (differences "a" 1 1, ⟨.count, [.int 5]⟩),
    (differences "a" 2 0, ⟨.count, [.int 0, .int 7]⟩)]

theorem proper_differences (path : String) {threshold stream : Int} (h : isWritable stream) :
    (differences path threshold stream).Proper := by
  have hone : isWritable 1 := by decide +kernel
  refine ⟨⟨_, rfl, Sublist.refl _⟩, ?_, hone, hone⟩
  intro p hp hname
  simp only [differences, mem_cons, not_mem_nil, or_false] at hp
  rcases hp with rfl | rfl
  · exact absurd rfl hname
  · exact ⟨stream, rfl, h⟩

theorem same_differences_iff (path path' : String) (threshold threshold' stream stream' : Int) :
    (differences path threshold stream).Same (differences path' threshold' stream') ↔
      path = path' ∧ stream = stream' := by
  have hlookup (p : String) (t n : Int) {name : String} (hname : name ≠ "threshold") :
      (differences p t n).attrs.lookup name =
        if name = "stream" then some (.number (.int n)) else none := by
    rw [differences, lookup_pair_cons, if_neg hname, lookup_pair_cons, lookup_nil]
  constructor
  · intro h
    have hstream := h.attrs "stream" (by decide)
    rw [hlookup _ _ _ (by decide), hlookup _ _ _ (by decide), if_pos rfl, if_pos rfl] at hstream
    cases hstream
    exact ⟨h.path, rfl⟩
  · rintro ⟨rfl, rfl⟩
    refine ⟨rfl, rfl, rfl, ?_⟩
    intro name hname
    rw [hlookup _ _ _ hname, hlookup _ _ _ hname]

theorem foundIn_recounts : ∀ before j, before <+: recounts → document before = .ok j →
    FoundIn j.compact j := by
  have hall : ∀ before ∈ recounts.inits,
      ∃ j ∈ (document before).toOption, FoundIn j.compact j := by
    decide +kernel
  intro before j hprefix hj
  obtain ⟨j', hj', hfound⟩ := hall before ((mem_inits _ _).2 hprefix)
  rw [hj] at hj'
  cases hj'
  exact hfound

theorem stored_after_saves_recounts : ∃ w',
    (recounts.mapM fun c => save "" c.1.path c.1.toKey c.2) emptyDesk =
      .ok (recounts.map (·.2)) w' ∧
    stored "" "a" (differences "a" 1 0).toKey w' = .ok (some ⟨.count, [.int 0, .int 7]⟩) w' ∧
    stored "" "a" (differences "a" 1 1).toKey w' = .ok (some ⟨.count, [.int 5]⟩) w' ∧
    stored "" "b" (differences "b" 1 1).toKey w' = .ok none w' := by
  have hcalls : ∀ c ∈ recounts, c.1.Proper ∧ c.2.Typed := by
    simp only [recounts, forall_mem_cons, not_mem_nil, false_implies, implies_true,
      and_true]
    refine ⟨⟨?_, by decide⟩, ⟨?_, by decide⟩, ?_, by decide⟩ <;>
      exact proper_differences "a" (by decide +kernel)
  obtain ⟨w', hrun, hstored, -⟩ :=
    stored_after_saves ready_emptyDesk (not_isFile_emptyDesk _) hcalls foundIn_recounts
  have hproper (path : String) (threshold : Int) : (differences path threshold 0).Proper ∧
      (differences path threshold 1).Proper :=
    ⟨proper_differences path (by decide +kernel), proper_differences path (by decide +kernel)⟩
  refine ⟨w', hrun, ?_, ?_, ?_⟩
  · refine (hstored _ (hproper "a" 1).1).2 [_, _] _ [] rfl ?_ ?_
    · exact (same_differences_iff ..).2 (by decide)
    · simp
  · refine (hstored _ (hproper "a" 1).2).2 [_] _ [_] rfl ?_ ?_
    · exact (same_differences_iff ..).2 (by decide)
    · simp [same_differences_iff]
  · refine (hstored _ (hproper "b" 1).2).1 ?_
    simp [recounts, same_differences_iff]

end Cache

end Jumpcut
