import Jumpcut.Proofs.EvalLaws
import Jumpcut.Proofs.ProcedureLaws
import Jumpcut.Proofs.ScanLaws

namespace Jumpcut.Script

open Outcome List Token Number Run

def Token.Normal : Token → Prop
  | .num x => x.Normal
  | .seconds x => x.Normal
  | _ => True

inductive Expr.Normal : Expr → Prop
  | var {x} : Normal (.var x)
  | num {x : Number} : x.Normal → Normal (.num x)
  | bool {b} : Normal (.bool b)
  | str {s} : Normal (.str s)
  | char {c} : Normal (.char c)
  | method {s} : Normal (.method s)
  | apply {op args} : Normal op → (∀ a ∈ args, Normal a) → Normal (.apply op args)

def Scope.Inherits (start s : Scope) : Prop :=
  ∀ x v, s.get? x = some v → v.Normal ∨ start.get? x = some v

/-- An evaluation that gives a whole fraction though it is given none. -/
inductive Slips {σ : Type} (host : Host σ) (start : Scope) : Expr × Machine σ → Prop
  | call {op args p m m₁ m₂} {xs : List Number} : op.isForm = false →
      eval host op m = .ok (.proc p) m₁ → evalAll host args m₁ = .ok (xs.map .num) m₂ →
      Leaks p xs → Slips host start (.apply op args, m)
  | name {x v m} : start.get? x = some v → m.scope.get? x = some v → ¬ v.Normal →
      Slips host start (.var x, m)

def Clean {σ : Type} (host : Host σ) (start : Scope) (s : Expr × Machine σ) : Prop :=
  ∀ s', Relation.ReflTransGen (Asks host) s s' → ¬ Slips host start s'

/-- An expression whose evaluation, as long as nothing slips, gives a normal value and binds no name
to another. -/
def Keeps {σ : Type} (host : Host σ) (start : Scope) (e : Expr) : Prop :=
  ∀ m v m', start.Inherits m.scope → Clean host start (e, m) → eval host e m = .ok v m' →
    v.Normal ∧ start.Inherits m'.scope

section Literals

variable {t : Token} {ts : List Token} {e : Expr} {es : List Expr} {c : Char} {cs rest : List Char}

theorem normal_of_ofNumeral {body unit : String} (h : ofNumeral body unit = .ok t) :
    t.Normal := by
  have hwrap {x : Number} (hx : x.Normal) :
      Normal ((if unit = "" then num else seconds) x) := by
    split <;> exact hx
  simp only [ofNumeral] at h
  split at h
  · split at h
    · cases h
      exact normal_complex _ _
    · cases h
      trivial
  · split at h
    · cases h
      trivial
    · split at h
      · split at h
        · cases h
          exact hwrap (normal_simplify _)
        · cases h
          trivial
        · cases h
      · split at h
        · split at h
          · cases h
            exact hwrap (normal_float _)
          · cases h
            trivial
        · split at h
          · cases h
            exact hwrap (normal_int _)
          · cases h
            trivial

theorem normal_of_numeral (h : numeral c cs = .ok (t, rest)) : t.Normal := by
  rw [numeral, map_eq_ok] at h
  obtain ⟨u, hu, heq⟩ := h
  cases heq
  exact normal_of_ofNumeral hu

theorem normal_of_bracket? (h : bracket? c = some t) : t.Normal := by
  rw [bracket?] at h
  split at h
  · cases h
    trivial
  · split at h
    · cases h
      trivial
    · cases h

theorem normal_of_hash (h : Token.hash cs = .ok (t, rest)) : t.Normal := by
  rw [hash.eq_def] at h
  split at h
  · cases h
    trivial
  · cases h
  · dsimp only at h
    split_ifs at h <;> cases h <;> trivial

theorem normal_of_quote (h : quote cs = .ok (t, rest)) : t.Normal := by
  rw [quote.eq_def] at h
  split at h
  · cases h
    trivial
  · cases h
  · cases h

theorem normal_of_word (h : word c cs = .ok (t, rest)) : t.Normal := by
  simp only [word] at h
  split_ifs at h <;> cases h <;> trivial

theorem normal_of_startingWith (h : startingWith c cs = .ok (t, rest)) : t.Normal := by
  rw [startingWith] at h
  split at h
  · rw [map_eq_ok] at h
    obtain ⟨r, -, heq⟩ := h
    cases heq
    trivial
  · split at h
    · next u hu =>
      cases h
      exact normal_of_bracket? hu
    · split_ifs at h
      · exact normal_of_numeral h
      · exact normal_of_numeral h
      · exact normal_of_hash h
      · exact normal_of_quote h
      · exact normal_of_word h

theorem normal_of_next? (h : Token.next? cs = .ok (some (t, rest))) : t.Normal := by
  rw [Token.next?] at h
  split at h
  · cases h
  · rw [map_eq_ok] at h
    obtain ⟨r, hr, heq⟩ := h
    cases heq
    exact normal_of_startingWith hr

theorem normal_of_mem_scan (ht : t ∈ (scan cs).tokens) : t.Normal := by
  induction cs using scan.induct with
  | case1 cs e he =>
    rw [scan_of_error he] at ht
    cases ht
  | case2 cs hnone =>
    rw [scan_of_none hnone] at ht
    cases ht
  | case3 cs u rest hsome ih =>
    rw [scan_of_some hsome] at ht
    rcases mem_cons.1 ht with rfl | htail
    · exact normal_of_next? hsome
    · exact ih htail

theorem normal_inTicks {x : Number} (hx : x.Normal) : (inTicks x).Normal := by
  refine .apply .var ?_
  rw [forall_mem_singleton]
  refine .apply .var ?_
  rw [forall_mem_cons, forall_mem_singleton]
  exact ⟨.num hx, .var⟩

theorem normal_of_leaf? (h : t.leaf? = some e) (ht : t.Normal) : e.Normal := by
  cases t with
  | num x =>
    cases h
    exact .num ht
  | seconds x =>
    cases h
    exact normal_inTicks ht
  | opener b => cases h
  | closer b => cases h
  | _ =>
    cases h
    constructor

theorem normal_apply {op : Expr} {args : List Expr} (h : ∀ e ∈ op :: args, e.Normal) :
    (Expr.apply op args).Normal := by
  rw [forall_mem_cons] at h
  exact .apply h.1 h.2

theorem Reads.normal {around : Option Bracket} (h : Reads around ts es)
    (hts : ∀ t ∈ ts, t.Normal) : ∀ e ∈ es, e.Normal := by
  induction h with
  | nil => simp
  | leaf _ hleaf ih =>
    simp only [forall_mem_append, forall_mem_singleton] at hts ⊢
    exact ⟨ih hts.1, normal_of_leaf? hleaf hts.2⟩
  | group _ _ ih ih' =>
    rw [forall_mem_append, forall_mem_singleton]
    simp only [forall_mem_append, forall_mem_cons] at hts
    obtain ⟨⟨hts, -, hus⟩, -⟩ := hts
    exact ⟨ih hts, normal_apply (ih' hus)⟩
  | inside _ ih => exact ih hts
  | stray _ _ _ ih ih' =>
    rw [forall_mem_append, forall_mem_singleton]
    simp only [forall_mem_append, forall_mem_cons] at hts
    obtain ⟨hts, -, hus⟩ := hts
    exact ⟨ih hts, normal_apply (ih' hus)⟩

theorem normal_of_read {text : String} (h : read text = .ok es) : ∀ e ∈ es, e.Normal := by
  rw [read, Scan.read, map_eq_ok] at h
  obtain ⟨⟨es', rest⟩, h, rfl⟩ := h
  obtain ⟨front, hfront, hreads, -⟩ := parse_eq_ok_iff.1 h
  apply hreads.normal
  intro t ht
  apply normal_of_mem_scan
  rw [hfront]
  exact mem_append_left rest ht

end Literals

section Values

variable {σ : Type} {host : Host σ} {start : Scope} {m m' : Machine σ} {v w : Value}
  {vs : List Value} {x : String} {op e : Expr} {args es : List Expr} {s s' : Expr × Machine σ}

theorem Scope.Inherits.set {sc : Scope} (h : start.Inherits sc) (hv : v.Normal) :
    start.Inherits (sc.set x v) := by
  intro y w hw
  rw [Scope.get?_set] at hw
  split at hw
  · cases hw
    exact .inl hv
  · exact h y w hw

theorem Clean.of_asks (h : Clean host start s) (hs : Asks host s s') : Clean host start s' := by
  intro s'' hreach
  exact h s'' (.head hs hreach)

theorem Clean.not_slips (h : Clean host start s) : ¬ Slips host start s := h s .refl

theorem call_normal {p : Prim} (hvs : ∀ v ∈ vs, v.Normal) (h : call host p vs m = .ok v m') :
    v.Normal ∨ ∃ xs : List Number, vs = xs.map .num ∧ Leaks p xs := by
  obtain ⟨hcheck, -, rfl | hrun⟩ := call_eq_ok h
  · exact .inl trivial
  · exact Prim.run_normal hcheck hvs hrun

theorem evalAll_keeps (hes : ∀ e ∈ es, Keeps host start e) (hm : start.Inherits m.scope)
    (hclean : ∀ front a back ws m₁, es = front ++ a :: back →
      evalAll host front m = .ok ws m₁ → Clean host start (a, m₁))
    (h : evalAll host es m = .ok vs m') : (∀ v ∈ vs, v.Normal) ∧ start.Inherits m'.scope := by
  induction es generalizing m vs with
  | nil =>
    cases h
    exact ⟨by simp, hm⟩
  | cons e es ih =>
    obtain ⟨w, ws, m₁, hw, hws, rfl⟩ := evalAll_cons_eq_ok.1 h
    rw [forall_mem_cons] at hes
    obtain ⟨hnormal, hm₁⟩ := hes.1 m w m₁ hm (hclean [] e es [] m rfl rfl) hw
    have hrest : ∀ front a back us m₂, es = front ++ a :: back →
        evalAll host front m₁ = .ok us m₂ → Clean host start (a, m₂) := by
      rintro front a back us m₂ rfl hfront
      exact hclean (e :: front) a back (w :: us) m₂ rfl
        (evalAll_cons_eq_ok.2 ⟨w, us, m₁, hw, hfront, rfl⟩)
    obtain ⟨hnormals, hm'⟩ := ih hes.2 hm₁ hrest hws
    exact ⟨forall_mem_cons.2 ⟨hnormal, hnormals⟩, hm'⟩

theorem keeps_var : Keeps host start (.var x) := by
  intro m v m' hm hclean h
  rw [eval] at h
  obtain ⟨hx, -, rfl⟩ := lookup_eq_ok.1 h
  refine ⟨?_, hm⟩
  by_contra hv
  exact hclean.not_slips (.name ((hm x v hx).resolve_left hv) hx hv)

theorem keeps_method {text : String} : Keeps host start (.method text) := by
  intro m v m' hm _ h
  obtain ⟨⟨xs, rfl⟩, hscope⟩ := eval_method_eq_ok h
  exact ⟨trivial, hscope ▸ hm⟩

theorem keeps_if (hargs : ∀ a ∈ args, Keeps host start a) :
    Keeps host start (.apply (.var "if") args) := by
  intro m v m' hm hclean h
  obtain ⟨c, t, e, rfl⟩ := exists_of_eval_if h
  obtain ⟨b, m₁, hc, hbranch⟩ := eval_if_eq_ok.1 h
  simp only [forall_mem_cons] at hargs
  obtain ⟨hkc, hkt, hke, -⟩ := hargs
  obtain ⟨-, hm₁⟩ := hkc m _ m₁ hm (hclean.of_asks .test) hc
  have hnext := hclean.of_asks (.branch hc)
  cases b with
  | true => exact hkt m₁ v m' hm₁ hnext hbranch
  | false => exact hke m₁ v m' hm₁ hnext hbranch

theorem keeps_when (hargs : ∀ a ∈ args, Keeps host start a) :
    Keeps host start (.apply (.var "when") args) := by
  intro m v m' hm hclean h
  obtain ⟨c, t, rfl⟩ := exists_of_eval_when h
  obtain ⟨b, m₁, hc, hbranch⟩ := eval_when_eq_ok.1 h
  simp only [forall_mem_cons] at hargs
  obtain ⟨hkc, hkt, -⟩ := hargs
  obtain ⟨-, hm₁⟩ := hkc m _ m₁ hm (hclean.of_asks .whenTest) hc
  rcases hbranch with ⟨rfl, ht⟩ | ⟨-, rfl, rfl⟩
  · exact hkt m₁ v m' hm₁ (hclean.of_asks (.whenBranch hc)) ht
  · exact ⟨trivial, hm₁⟩

theorem assign_keeps {form : String} (hform : form ∈ ["define", "set!"])
    (hargs : ∀ a ∈ args, Keeps host start a) (hm : start.Inherits m.scope)
    (hclean : Clean host start (.apply (.var form) args, m))
    (h : assign host form args m = .ok v m') : v.Normal ∧ start.Inherits m'.scope := by
  obtain ⟨a, e, rfl⟩ := exists_of_assign h
  obtain ⟨x, w, m₁, rfl, hbound, he, rfl, rfl⟩ := assign_eq_ok.1 h
  simp only [forall_mem_cons] at hargs
  obtain ⟨-, hke, -⟩ := hargs
  obtain ⟨hw, hm₁⟩ := hke m w m₁ hm (hclean.of_asks (.assigned hform hbound)) he
  exact ⟨trivial, hm₁.set hw⟩

theorem keeps_apply (hform : op.isForm = false) (hop : Keeps host start op)
    (hargs : ∀ a ∈ args, Keeps host start a) : Keeps host start (.apply op args) := by
  intro m v m' hm hclean h
  obtain ⟨p, m₁, vs, m₂, hproc, hvs, hcall⟩ := (eval_apply_eq_ok hform).1 h
  obtain ⟨-, hm₁⟩ := hop m _ m₁ hm (hclean.of_asks (.operator hform)) hproc
  have hoperands : ∀ front a back ws m₃, args = front ++ a :: back →
      evalAll host front m₁ = .ok ws m₃ → Clean host start (a, m₃) := by
    rintro front a back ws m₃ rfl hfront
    exact hclean.of_asks (.operand hform hproc hfront)
  obtain ⟨hnormal, hm₂⟩ := evalAll_keeps hargs hm₁ hoperands hvs
  refine ⟨?_, (call_eq_ok hcall).2.1 ▸ hm₂⟩
  rcases call_normal hnormal hcall with hv | ⟨xs, rfl, hleak⟩
  · exact hv
  · exact absurd (.call hform hproc hvs hleak) hclean.not_slips

theorem Expr.Normal.keeps (he : e.Normal) : Keeps host start e := by
  induction he with
  | var => exact keeps_var
  | method => exact keeps_method
  | num hx =>
    rintro m v m' hm - ⟨⟩
    exact ⟨hx, hm⟩
  | bool | str | char =>
    rintro m v m' hm - ⟨⟩
    exact ⟨trivial, hm⟩
  | @apply op args _ _ hop hargs =>
    cases hform : op.isForm with
    | false => exact keeps_apply hform hop hargs
    | true =>
      rcases Expr.isForm_iff.1 hform with rfl | rfl | rfl | rfl
      · exact keeps_if hargs
      · exact keeps_when hargs
      · intro m v m' hm hclean h
        rw [eval] at h
        exact assign_keeps (by simp) hargs hm hclean h
      · intro m v m' hm hclean h
        rw [eval] at h
        exact assign_keeps (by simp) hargs hm hclean h

theorem Expr.Normal.operator (h : (Expr.apply op args).Normal) : op.Normal := by
  cases h with
  | apply hop _ => exact hop

theorem Expr.Normal.arg (h : (Expr.apply op args).Normal) (he : e ∈ args) : e.Normal := by
  cases h with
  | apply _ hargs => exact hargs e he

theorem Asks.keeps (h : Asks host s s') (he : s.1.Normal) (hm : start.Inherits s.2.scope)
    (hclean : Clean host start s) : s'.1.Normal ∧ start.Inherits s'.2.scope := by
  cases h with
  | test => exact ⟨he.arg (.head _), hm⟩
  | @branch c t e b m m' hc =>
    have hkeep := (he.arg (.head _)).keeps m _ m' hm (hclean.of_asks .test) hc
    refine ⟨?_, hkeep.2⟩
    cases b with
    | true => exact he.arg (.tail _ (.head _))
    | false => exact he.arg (.tail _ (.tail _ (.head _)))
  | whenTest => exact ⟨he.arg (.head _), hm⟩
  | @whenBranch c t m m' hc =>
    have hkeep := (he.arg (.head _)).keeps m _ m' hm (hclean.of_asks .whenTest) hc
    exact ⟨he.arg (.tail _ (.head _)), hkeep.2⟩
  | assigned => exact ⟨he.arg (.tail _ (.head _)), hm⟩
  | operator => exact ⟨he.operator, hm⟩
  | @operand op front a back p vs m m₁ m₂ hform hproc hfront =>
    obtain ⟨-, hm₁⟩ := he.operator.keeps m _ m₁ hm (hclean.of_asks (.operator hform)) hproc
    have hargs : ∀ e ∈ front, Keeps host start e := fun e hmem =>
      (he.arg (mem_append_left _ hmem)).keeps
    have hoperands : ∀ front' b back' ws m₃, front = front' ++ b :: back' →
        evalAll host front' m₁ = .ok ws m₃ → Clean host start (b, m₃) := by
      rintro front' b back' ws m₃ rfl hfront'
      rw [append_assoc, cons_append] at hclean
      exact hclean.of_asks (.operand hform hproc hfront')
    exact ⟨he.arg (by simp), (evalAll_keeps hargs hm₁ hoperands hfront).2⟩

theorem reach_keeps (h : Relation.ReflTransGen (Asks host) s s') (he : s.1.Normal)
    (hm : start.Inherits s.2.scope) (hclean : Clean host start s) :
    s'.1.Normal ∧ start.Inherits s'.2.scope := by
  induction h with
  | refl => exact ⟨he, hm⟩
  | tail hreach hasks ih =>
    exact hasks.keeps ih.1 ih.2 fun s'' hs'' => hclean s'' (hreach.trans hs'')

end Values

section Scripts

variable {σ : Type} {host : Host σ} {text : String} {start : Machine σ} {v : Value}
  {s s' : Expr × Machine σ}

theorem Comes.asks (h : Comes host text start s) (hs : Asks host s s') :
    Comes host text start s' := by
  obtain ⟨front, a, back, vs, m, hread, hfront, hreach⟩ := h
  exact ⟨front, a, back, vs, m, hread, hfront, hreach.tail hs⟩

theorem normal_of_produces (hslips : ∀ s, Comes host text start s → ¬ Slips host start.scope s)
    (h : Produces host text start v) : v.Normal := by
  obtain ⟨s, m', ⟨front, a, back, vs, m, hread, hfront, hreach⟩, heval⟩ := h
  have hnormal := normal_of_read hread
  have hfronts : ∀ e ∈ front, Keeps host start.scope e := fun e he =>
    (hnormal e (mem_append_left _ he)).keeps
  have hearlier : ∀ front' b back' ws m₁, front = front' ++ b :: back' →
      evalAll host front' start = .ok ws m₁ → Clean host start.scope (b, m₁) := by
    rintro front' b back' ws m₁ rfl hfront' s' hs'
    rw [append_assoc, cons_append] at hread
    exact hslips s' ⟨front', b, _, ws, m₁, hread, hfront', hs'⟩
  have hstart : start.scope.Inherits start.scope := fun x v hx => .inr hx
  obtain ⟨-, hm⟩ := evalAll_keeps hfronts hstart hearlier hfront
  have hclean : Clean host start.scope (a, m) := fun s' hs' =>
    hslips s' ⟨front, a, back, vs, m, hread, hfront, hs'⟩
  obtain ⟨hs, hms⟩ := reach_keeps hreach (hnormal a (by simp)) hm hclean
  have hrest : Clean host start.scope (s.1, s.2) := fun s' hs' => hclean s' (hreach.trans hs')
  exact (hs.keeps s.2 v m' hms hrest heval).1

theorem not_slips_of_produces (hnormal : ∀ v, Produces host text start v → v.Normal)
    (h : Comes host text start s) : ¬ Slips host start.scope s := by
  intro hslips
  cases hslips with
  | @name x v m hstart hx hv =>
    have hnone : v ≠ .none := by
      rintro rfl
      exact hv trivial
    apply hv
    apply hnormal
    refine ⟨(.var x, m), m, h, ?_⟩
    rw [eval]
    exact lookup_eq_ok.2 ⟨hx, hnone, rfl⟩
  | @call op args p m m₁ m₂ xs hform hproc hargs hleak =>
    have hxs (x : Number) (hx : x ∈ xs) : x.Normal := by
      have hmem : Value.num x ∈ xs.map .num := mem_map_of_mem hx
      obtain ⟨front, a, back, ws, m₃, m₄, rfl, hfront, ha⟩ := exists_of_mem_evalAll hargs hmem
      exact hnormal (.num x) ⟨(a, m₃), m₄, h.asks (.operand hform hproc hfront), ha⟩
    obtain ⟨hcheck, v, hrun, hv⟩ := Prim.run_of_leaks hxs hleak
    have hdisplay : p ≠ .display := by
      rintro rfl
      cases hleak
    have hcall : call host p (xs.map .num) m₂ = .ok v m₂ :=
      call_of_run hcheck hdisplay hrun
    apply hv
    apply hnormal
    exact ⟨(.apply op args, m), m₂, h, (eval_apply_eq_ok hform).2
      ⟨p, m₁, xs.map .num, m₂, hproc, hargs, hcall⟩⟩

end Scripts

theorem normal_iff_satisfies {x : Number} :
    x.Normal ↔ ∀ i : Int, x.rational? = some (i : Rat) → (Value.num x).satisfies .exactInteger := by
  constructor
  · intro h i hi
    rw [h i hi]
    rfl
  · intro h i hi
    have hsat := h i hi
    cases x with
    | int j => rw [Rat.intCast_injective (Option.some.inj hi)]
    | _ => cases hsat

/-- Every value that a script makes is normal exactly if no evaluation slips, and the normal numbers
are those that count as exact integers wherever they equal one. -/
theorem produces_normal_iff {σ : Type} (host : Host σ) (text : String) (start : Machine σ) :
    ((∀ v, Produces host text start v → v.Normal) ↔
      ∀ s, Comes host text start s → ¬ Slips host start.scope s) ∧
    ∀ x : Number, x.Normal ↔
      ∀ i : Int, x.rational? = some (i : Rat) → (Value.num x).satisfies .exactInteger := by
  refine ⟨⟨fun h s hs => ?_, fun h v hv => ?_⟩, fun x => normal_iff_satisfies⟩
  · exact not_slips_of_produces h hs
  · exact normal_of_produces h hv

theorem produces_whole_fraction :
    Produces ⟨fun _ s => s, none⟩ "(* 1/2 2)" (⟨Scope.initial, ()⟩ : Machine Unit)
        (.num (.frac 1)) ∧
      ¬ (Value.num (.frac 1)).Normal ∧ (Value.num (.frac 1)).satisfies .exactInteger = false := by
  let start : Machine Unit := ⟨Scope.initial, ()⟩
  let product : Expr := .apply (.var "*") [.num (.frac (mkRat 1 2)), .num (.int 2)]
  have hopener : Scans "(* 1/2 2)".toList [.opener .round] "* 1/2 2)".toList := .next .nil rfl
  have htimes := hopener.next (show Token.next? "* 1/2 2)".toList =
    .ok (some (.ident "*", " 1/2 2)".toList)) from rfl)
  have hhalf := htimes.next (show Token.next? " 1/2 2)".toList =
    .ok (some (.num (.frac (mkRat 1 2)), " 2)".toList)) from rfl)
  have htwo := hhalf.next (show Token.next? " 2)".toList =
    .ok (some (.num (.int 2), ")".toList)) from rfl)
  have hcloser := htwo.next (show Token.next? ")".toList =
    .ok (some (.closer .round, [])) from rfl)
  have hread : read "(* 1/2 2)" = .ok [product] := by
    rw [read, hcloser.scan_eq, scan_of_none rfl]
    rfl
  have hproduct : eval ⟨fun _ s => s, none⟩ product start =
      .ok (.num (.frac (((1 : Int) : Rat) * mkRat 1 2 * ((2 : Int) : Rat)))) start := rfl
  have hone : ((1 : Int) : Rat) * mkRat 1 2 * ((2 : Int) : Rat) = 1 := by
    norm_num [Rat.mkRat_eq_div]
  rw [hone] at hproduct
  refine ⟨⟨(product, start), start, ?_, hproduct⟩, ?_, rfl⟩
  · exact ⟨[], product, [], [], start, hread, rfl, .refl⟩
  · intro hnormal
    exact normal_frac.1 hnormal ⟨1, by simp⟩

end Jumpcut.Script
