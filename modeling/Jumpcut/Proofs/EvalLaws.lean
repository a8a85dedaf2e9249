import Jumpcut.Proofs.OutcomeLaws
import Jumpcut.Proofs.WorkspaceLaws
import Jumpcut.Script.Eval
import Mathlib.Data.List.Basic
import Mathlib.Logic.Relation

/-!
Running edit scripts: when each kind of expression ends well and in which state. `Asks` says which
expressions an expression has evaluated and where, so that everything a script comes to (`Comes`) and
every value it makes on the way (`Produces`) can be followed from its text.
-/
namespace Jumpcut.Script

open Outcome Run

def Expr.isForm (e : Expr) : Bool :=
  match e with
  | .var "if" => true
  | .var "when" => true
  | .var "define" => true
  | .var "set!" => true
  | _ => false

theorem Expr.isForm_iff {e : Expr} : e.isForm ↔
    e = .var "if" ∨ e = .var "when" ∨ e = .var "define" ∨ e = .var "set!" := by
  constructor
  · intro h
    rw [Expr.isForm.eq_def] at h
    split at h
    · simp
    · simp
    · simp
    · simp
    · cases h
  · rintro (rfl | rfl | rfl | rfl) <;> rfl

/-- The next expressions that an expression needs the value of, with the states they are met in. -/
inductive Asks {σ : Type} (host : Host σ) : Expr × Machine σ → Expr × Machine σ → Prop
  | test {c t e m} : Asks host (.apply (.var "if") [c, t, e], m) (c, m)
  | branch {c t e b m m'} : eval host c m = .ok (.bool b) m' →
      Asks host (.apply (.var "if") [c, t, e], m) (if b then t else e, m')
  | whenTest {c t m} : Asks host (.apply (.var "when") [c, t], m) (c, m)
  | whenBranch {c t m m'} : eval host c m = .ok (.bool true) m' →
      Asks host (.apply (.var "when") [c, t], m) (t, m')
  | assigned {form x e m} : form ∈ ["define", "set!"] →
      (form = "set!" → (m.scope.get? x).isSome) →
      Asks host (.apply (.var form) [.var x, e], m) (e, m)
  | operator {op args m} : op.isForm = false → Asks host (.apply op args, m) (op, m)
  | operand {op front a back p vs m m₁ m₂} : op.isForm = false →
      eval host op m = .ok (.proc p) m₁ → evalAll host front m₁ = .ok vs m₂ →
      Asks host (.apply op (front ++ a :: back), m) (a, m₂)

/-- An expression that is evaluated while a script runs, and the state it is met in. -/
def Comes {σ : Type} (host : Host σ) (text : String) (start : Machine σ)
    (s : Expr × Machine σ) : Prop :=
  ∃ front a back vs m, read text = .ok (front ++ a :: back) ∧
    evalAll host front start = .ok vs m ∧ Relation.ReflTransGen (Asks host) (a, m) s

def Produces {σ : Type} (host : Host σ) (text : String) (start : Machine σ) (v : Value) : Prop :=
  ∃ s m, Comes host text start s ∧ eval host s.1 s.2 = .ok v m

section Steps

variable {σ α : Type} {host : Host σ} {m m' : Machine σ} {v : Value} {vs : List Value} {p : Prim}
  {op e c t : Expr} {args es : List Expr} {x y form : String}

theorem evalAll_cons : evalAll host (e :: es) =
    (do
      let v ← eval host e
      return v :: (← evalAll host es)) := rfl

theorem eval_method {s : String} :
    eval host (.method s) = (do return .flags (← analyse host s)) := rfl

theorem eval_if : eval host (.apply (.var "if") [c, t, e]) =
    (do
      checkForm "if" 3 3
      if ← condition "if" (← eval host c) then eval host t else eval host e) := rfl

theorem eval_when : eval host (.apply (.var "when") [c, t]) =
    (do
      checkForm "when" 2 2
      if ← condition "when" (← eval host c) then eval host t else return .none) := rfl

theorem Scope.get?_set (s : Scope) : (s.set x v).get? y = if y = x then some v else s.get? y := by
  rw [Scope.set, Scope.get?, lookup_pair_cons, lookup_filter_ne]
  split <;> rfl

theorem Run.ofExcept_eq_ok {r : Except Fault α} {a : α} :
    (ofExcept r : Run σ α) m = .ok a m' ↔ r = .ok a ∧ m = m' := by
  cases r with
  | error e => simp [ofExcept]
  | ok b => simp [ofExcept]

theorem Run.lookup_eq_ok :
    lookup x m = .ok v m' ↔ m.scope.get? x = some v ∧ v ≠ .none ∧ m = m' := by
  rw [lookup, run_bind_eq_ok]
  constructor
  · rintro ⟨_, _, ⟨⟩, h⟩
    cases hx : m.scope.get? x with
    | none =>
      rw [hx] at h
      exact (run_throw_ne_ok h).elim
    | some w =>
      rw [hx] at h
      cases w with
      | none => exact (run_throw_ne_ok h).elim
      | _ =>
        obtain ⟨rfl, rfl⟩ := run_pure_eq_ok.1 h
        simp
  · rintro ⟨hx, hv, rfl⟩
    refine ⟨m, m, rfl, ?_⟩
    rw [hx]
    cases v with
    | none => exact absurd rfl hv
    | _ => rfl

theorem Run.call_of_ne_display (hp : p ≠ .display) : call host p vs =
    ofExcept (p.signature.check vs) >>= fun _ => ofExcept (p.run vs) := by
  rw [call.eq_def]
  congr 1
  funext _
  split
  · exact absurd rfl hp
  · exact absurd rfl hp
  · exact absurd rfl hp
  · rfl

theorem Run.call_of_check (hcheck : p.signature.check vs = .ok ()) (hp : p ≠ .display) :
    call host p vs m = ofExcept (p.run vs) m := by
  rw [call_of_ne_display hp, hcheck]
  rfl

theorem Run.call_of_run (hcheck : p.signature.check vs = .ok ()) (hp : p ≠ .display)
    (hrun : p.run vs = .ok v) : call host p vs m = .ok v m := by
  rw [call_of_check hcheck hp, hrun]
  rfl

theorem Run.call_eq_ok (h : call host p vs m = .ok v m') :
    p.signature.check vs = .ok () ∧ m'.scope = m.scope ∧ (v = .none ∨ p.run vs = .ok v) := by
  rw [call.eq_def, run_bind_eq_ok] at h
  obtain ⟨u, m₁, hu, h⟩ := h
  obtain ⟨hcheck, rfl⟩ := ofExcept_eq_ok.1 hu
  refine ⟨hcheck, ?_⟩
  split at h
  · cases h
    exact ⟨rfl, .inl rfl⟩
  · cases h
    exact ⟨rfl, .inl rfl⟩
  · simp only [run_bind_eq_ok, ofExcept_eq_ok] at h
    obtain ⟨s, m₁, ⟨-, rfl⟩, u', m₂, hwrite, h⟩ := h
    cases hwrite
    cases h
    exact ⟨rfl, .inl rfl⟩
  · obtain ⟨hrun, rfl⟩ := ofExcept_eq_ok.1 h
    exact ⟨rfl, .inr hrun⟩

theorem eval_apply_eq_ok (hop : op.isForm = false) :
    eval host (.apply op args) m = .ok v m' ↔ ∃ p m₁ vs m₂, eval host op m = .ok (.proc p) m₁ ∧
      evalAll host args m₁ = .ok vs m₂ ∧ call host p vs m₂ = .ok v m' := by
  rw [eval, run_bind_eq_ok]
  · constructor
    · rintro ⟨f, m₁, hf, h⟩
      cases f with
      | proc p =>
        obtain ⟨vs, m₂, hvs, hcall⟩ := run_bind_eq_ok.1 h
        exact ⟨p, m₁, vs, m₂, hf, hvs, hcall⟩
      | _ =>
        obtain ⟨e, m₂, -, hthrow⟩ := run_bind_eq_ok.1 h
        exact (run_throw_ne_ok hthrow).elim
    · rintro ⟨p, m₁, vs, m₂, hf, hvs, hcall⟩
      exact ⟨.proc p, m₁, hf, run_bind_eq_ok.2 ⟨vs, m₂, hvs, hcall⟩⟩
  all_goals
    rintro rfl
    cases hop

theorem eval_apply_of_proc (hop : op.isForm = false) (hf : eval host op m = .ok (.proc p) m') :
    eval host (.apply op args) m = (evalAll host args >>= call host p) m' := by
  rw [eval, run_bind_of_ok hf]
  all_goals
    rintro rfl
    cases hop

theorem Run.checkForm_eq_ok {name : String} {n got : Nat} {u : Unit} :
    checkForm name n got m = .ok u m' ↔ got = n ∧ m = m' := by
  rw [checkForm]
  split
  · next hn => simp [hn]
  · next hn => simp [hn]

theorem Run.condition_eq_ok {b : Bool} :
    condition form v m = .ok b m' ↔ v = .bool b ∧ m = m' := by
  cases v with
  | bool c => simp [condition]
  | _ => simp [condition]

theorem Run.target_eq_ok : target e m = .ok x m' ↔ e = .var x ∧ m = m' := by
  cases e with
  | var y => simp [target]
  | _ => simp [target, run_bind_eq_ok]

theorem Run.checkBound_eq_ok {u : Unit} : checkBound form x m = .ok u m' ↔
    (form = "set!" → (m.scope.get? x).isSome) ∧ m = m' := by
  have hget : checkBound form x m =
      (if form = "set!" ∧ (m.scope.get? x).isNone then throw (.script (.setUndefined x))
        else pure () : Run σ Unit) m := rfl
  rw [hget]
  split
  · next hx => simp [hx.1, Option.isNone_iff_eq_none.1 hx.2]
  · next hx =>
    have hbound : form = "set!" → (m.scope.get? x).isSome := by
      intro hform
      simpa [Option.isSome_iff_ne_none] using fun hnone => hx ⟨hform, by rw [hnone]; rfl⟩
    simpa using fun _ => hbound

theorem exists_of_eval_if (h : eval host (.apply (.var "if") args) m = .ok v m') :
    ∃ c t e, args = [c, t, e] := by
  by_contra hargs
  rw [eval, run_bind_eq_ok] at h
  · obtain ⟨u, m₁, hform, -⟩ := h
    exact hargs (List.length_eq_three.1 (checkForm_eq_ok.1 hform).1)
  · rintro c t e rfl
    exact hargs ⟨c, t, e, rfl⟩

theorem Run.branch_eq_ok {n : Nat} {yes no : Run σ Value} :
    (do
      checkForm form n n
      if ← condition form (← eval host c) then yes else no : Run σ Value) m = .ok v m' ↔
      ∃ b m₁, eval host c m = .ok (.bool b) m₁ ∧ (if b then yes else no) m₁ = .ok v m' := by
  rw [run_bind_eq_ok]
  constructor
  · rintro ⟨u, m₀, hform, h⟩
    obtain ⟨-, rfl⟩ := checkForm_eq_ok.1 hform
    obtain ⟨w, m₁, hc, h⟩ := run_bind_eq_ok.1 h
    obtain ⟨b, m₂, hb, h⟩ := run_bind_eq_ok.1 h
    obtain ⟨rfl, rfl⟩ := condition_eq_ok.1 hb
    exact ⟨b, m₁, hc, h⟩
  · rintro ⟨b, m₁, hc, h⟩
    refine ⟨(), m, checkForm_eq_ok.2 ⟨rfl, rfl⟩, run_bind_eq_ok.2 ⟨.bool b, m₁, hc, ?_⟩⟩
    exact run_bind_eq_ok.2 ⟨b, m₁, condition_eq_ok.2 ⟨rfl, rfl⟩, h⟩

theorem eval_if_eq_ok : eval host (.apply (.var "if") [c, t, e]) m = .ok v m' ↔
    ∃ b m₁, eval host c m = .ok (.bool b) m₁ ∧ eval host (if b then t else e) m₁ = .ok v m' := by
  rw [eval_if, branch_eq_ok]
  refine exists₂_congr fun b m₁ => ?_
  cases b <;> rfl

theorem exists_of_eval_when (h : eval host (.apply (.var "when") args) m = .ok v m') :
    ∃ c t, args = [c, t] := by
  by_contra hargs
  rw [eval, run_bind_eq_ok] at h
  · obtain ⟨u, m₁, hform, -⟩ := h
    exact hargs (List.length_eq_two.1 (checkForm_eq_ok.1 hform).1)
  · rintro c t rfl
    exact hargs ⟨c, t, rfl⟩

theorem eval_when_eq_ok : eval host (.apply (.var "when") [c, t]) m = .ok v m' ↔
    ∃ b m₁, eval host c m = .ok (.bool b) m₁ ∧
      (b = true ∧ eval host t m₁ = .ok v m' ∨ b = false ∧ v = .none ∧ m' = m₁) := by
  rw [eval_when, branch_eq_ok]
  refine exists₂_congr fun b m₁ => and_congr_right fun _ => ?_
  cases b with
  | true => simp
  | false => simp [eq_comm]

theorem exists_of_assign (h : assign host form args m = .ok v m') : ∃ a e, args = [a, e] := by
  by_contra hargs
  rw [assign, run_bind_eq_ok] at h
  · obtain ⟨u, m₁, hform, -⟩ := h
    exact hargs (List.length_eq_two.1 (checkForm_eq_ok.1 hform).1)
  · rintro a e rfl
    exact hargs ⟨a, e, rfl⟩

theorem assign_eq_ok {a : Expr} : assign host form [a, e] m = .ok v m' ↔
    ∃ x w m₁, a = .var x ∧ (form = "set!" → (m.scope.get? x).isSome) ∧
      eval host e m = .ok w m₁ ∧ v = .none ∧ m' = { m₁ with scope := m₁.scope.set x w } := by
  rw [assign, run_bind_eq_ok]
  constructor
  · rintro ⟨u, m₀, hform, h⟩
    obtain ⟨-, rfl⟩ := checkForm_eq_ok.1 hform
    obtain ⟨x, m₁, hx, h⟩ := run_bind_eq_ok.1 h
    obtain ⟨rfl, rfl⟩ := target_eq_ok.1 hx
    obtain ⟨u, m₁, hcheck, h⟩ := run_bind_eq_ok.1 h
    obtain ⟨hbound, rfl⟩ := checkBound_eq_ok.1 hcheck
    obtain ⟨w, m₁, he, h⟩ := run_bind_eq_ok.1 h
    cases h
    exact ⟨x, w, m₁, rfl, hbound, he, rfl, rfl⟩
  · rintro ⟨x, w, m₁, rfl, hbound, he, rfl, rfl⟩
    refine ⟨(), m, checkForm_eq_ok.2 ⟨rfl, rfl⟩, ?_⟩
    refine run_bind_eq_ok.2 ⟨x, m, target_eq_ok.2 ⟨rfl, rfl⟩, ?_⟩
    refine run_bind_eq_ok.2 ⟨(), m, checkBound_eq_ok.2 ⟨hbound, rfl⟩, ?_⟩
    exact run_bind_eq_ok.2 ⟨w, m₁, he, rfl⟩

theorem evalAll_cons_eq_ok : evalAll host (e :: es) m = .ok vs m' ↔
    ∃ w ws m₁, eval host e m = .ok w m₁ ∧ evalAll host es m₁ = .ok ws m' ∧ vs = w :: ws := by
  rw [evalAll_cons]
  simp only [run_bind_eq_ok, run_pure_eq_ok]
  constructor
  · rintro ⟨w, m₁, hw, ws, m₂, hws, rfl, rfl⟩
    exact ⟨w, ws, m₁, hw, hws, rfl⟩
  · rintro ⟨w, ws, m₁, hw, hws, rfl⟩
    exact ⟨w, m₁, hw, ws, m', hws, rfl, rfl⟩

theorem evalAll_append_of_error {front back : List Expr} {m₁ : Machine σ} {f : Fault}
    (hfront : evalAll host front m = .ok vs m₁) (he : eval host e m₁ = .error f m') :
    evalAll host (front ++ e :: back) m = .error f m' := by
  induction front generalizing m vs with
  | nil =>
    cases hfront
    rw [List.nil_append, evalAll_cons, run_bind_of_error he]
  | cons a front ih =>
    obtain ⟨v, ws, m₂, ha, hrest, rfl⟩ := evalAll_cons_eq_ok.1 hfront
    rw [List.cons_append, evalAll_cons, run_bind_of_ok ha, run_bind_of_error (ih hrest)]

theorem eval_method_eq_ok {s : String} (h : eval host (.method s) m = .ok v m') :
    (∃ xs, v = .flags xs) ∧ m'.scope = m.scope := by
  rw [eval_method, run_bind_eq_ok] at h
  obtain ⟨xs, m₁, hxs, h⟩ := h
  cases h
  refine ⟨⟨xs, rfl⟩, ?_⟩
  cases hanalyse : host.analyse with
  | none =>
    rw [analyse, hanalyse] at hxs
    exact (run_throw_ne_ok hxs).elim
  | some f =>
    rw [analyse, hanalyse] at hxs
    change onHost (f s) m = _ at hxs
    rw [onHost] at hxs
    split at hxs
    · cases hxs
      rfl
    · cases hxs

theorem exists_of_mem_evalAll (h : evalAll host es m = .ok vs m') (hv : v ∈ vs) :
    ∃ front a back ws m₁ m₂, es = front ++ a :: back ∧ evalAll host front m = .ok ws m₁ ∧
      eval host a m₁ = .ok v m₂ := by
  induction es generalizing m vs with
  | nil =>
    cases h
    cases hv
  | cons e es ih =>
    obtain ⟨w, ws, m₁, hw, hws, rfl⟩ := evalAll_cons_eq_ok.1 h
    rcases List.mem_cons.1 hv with rfl | htail
    · exact ⟨[], e, es, [], m, m₁, rfl, rfl, hw⟩
    · obtain ⟨front, a, back, us, m₂, m₃, rfl, hfront, ha⟩ := ih hws htail
      exact ⟨e :: front, a, back, w :: us, m₂, m₃, rfl,
        evalAll_cons_eq_ok.2 ⟨w, us, m₁, hw, hfront, rfl⟩, ha⟩

end Steps

end Jumpcut.Script
