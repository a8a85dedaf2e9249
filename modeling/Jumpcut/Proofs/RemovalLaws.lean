import Jumpcut.Proofs.EvalLaws
import Jumpcut.Proofs.ProcedureLaws

/-!
Removing short clips and cuts in edit scripts. `cook` takes both limits and the flags. `mincut` and
`minclip`, which stand for one of its steps each, ask for a limit and flags but take their arguments
the other way round, so no call of them comes to a value.
-/
namespace Jumpcut.Script

open List Outcome Scope Flags Run

variable {σ : Type} {host : Host σ} {m m₁ m₂ m₃ : Machine σ} {p : Prim} {v : Value}
  {vs : List Value} {f : String} {ea eb e : Expr} {args : List Expr} {a b : Int} {xs : Flags}
  {x y : Bool}

theorem eval_apply_name (hform : (Expr.var f).isForm = false)
    (hf : m.scope.get? f = some (.proc p)) :
    eval host (.apply (.var f) args) m = (evalAll host args >>= call host p) m := by
  refine eval_apply_of_proc hform ?_
  rw [eval]
  exact lookup_eq_ok.2 ⟨hf, by simp, rfl⟩

theorem evalAll_two (ha : eval host ea m = .ok v m₁) {w : Value} (hb : eval host eb m₁ = .ok w m₂) :
    evalAll host [ea, eb] m = .ok [v, w] m₂ :=
  evalAll_cons_eq_ok.2 ⟨v, [w], m₁, ha, evalAll_cons_eq_ok.2 ⟨w, [], m₂, hb, rfl, rfl⟩, rfl⟩

theorem satisfies_exactInteger_iff : v.satisfies .exactInteger ↔ ∃ a, v = .num (.int a) := by
  cases v with
  | num x => cases x <;> simp [Value.satisfies]
  | _ => simp [Value.satisfies]

theorem satisfies_flags_iff : v.satisfies .flags ↔ ∃ xs, v = .flags xs := by
  cases v <;> simp [Value.satisfies]

/-- The procedure takes runs of the first flag, where they are short, to the second. -/
inductive Removes : Prim → Bool → Bool → Prop
  | mincut : Removes .mincut false true
  | minclip : Removes .minclip true false

theorem Removes.spec (hp : Removes p x y) : p ≠ .display ∧
    p.signature.arity = .exactly 2 ∧ p.signature.contracts = [.exactInteger, .flags] ∧
    p.run = binary (removeShort x y) := by
  cases hp <;> exact ⟨nofun, rfl, rfl, rfl⟩

theorem Removes.check_iff (hp : Removes p x y) :
    p.signature.check vs = .ok () ↔ ∃ a xs, vs = [.num (.int a), .flags xs] := by
  obtain ⟨-, harity, hcontracts, -⟩ := hp.spec
  rw [Signature.check_eq_ok, harity, hcontracts]
  constructor
  · rintro ⟨hlength, hmeets⟩
    obtain ⟨v, w, rfl⟩ := length_eq_two.1 (by simpa [Arity.admits] using hlength)
    simp only [meets, Bool.and_eq_true] at hmeets
    obtain ⟨hv, hw, -⟩ := hmeets
    obtain ⟨a, rfl⟩ := satisfies_exactInteger_iff.1 hv
    obtain ⟨xs, rfl⟩ := satisfies_flags_iff.1 hw
    exact ⟨a, xs, rfl⟩
  · rintro ⟨a, xs, rfl⟩
    exact ⟨rfl, rfl⟩

theorem Removes.run_array (hp : Removes p x y) :
    p.run [.flags xs, .num (.int a)] = .ok (.flags (dropShort x y a xs)) := by
  obtain ⟨-, -, -, hrun⟩ := hp.spec
  rw [hrun]
  rfl

theorem Removes.run_limit (hp : Removes p x y) :
    p.run [.num (.int a), .flags xs] = .error .wrongKind := by
  obtain ⟨-, -, -, hrun⟩ := hp.spec
  rw [hrun]
  rfl

theorem Removes.call_limit (hp : Removes p x y) :
    call host p [.num (.int a), .flags xs] m = .error .wrongKind m := by
  rw [call_of_check (hp.check_iff.2 ⟨a, xs, rfl⟩) hp.spec.1, hp.run_limit]
  rfl

theorem Removes.call_ne_ok (hp : Removes p x y) : call host p vs m ≠ .ok v m₁ := by
  intro h
  obtain ⟨hcheck, -⟩ := call_eq_ok h
  obtain ⟨a, xs, rfl⟩ := hp.check_iff.1 hcheck
  rw [hp.call_limit] at h
  cases h

theorem call_cook : call host .cook [.num (.int a), .num (.int b), .flags xs] m =
    .ok (.flags (dropShort false true a (dropShort true false b xs))) m := by
  apply call_of_run
  · rfl
  · decide
  · rfl

theorem eval_cook (hcook : m.scope.get? "cook" = some (.proc .cook))
    (ha : eval host ea m = .ok (.num (.int a)) m₁) (hb : eval host eb m₁ = .ok (.num (.int b)) m₂)
    (he : eval host e m₂ = .ok (.flags xs) m₃) :
    eval host (.apply (.var "cook") [ea, eb, e]) m =
      .ok (.flags (dropShort false true a (dropShort true false b xs))) m₃ := by
  have hargs : evalAll host [ea, eb, e] m = .ok [.num (.int a), .num (.int b), .flags xs] m₃ :=
    evalAll_cons_eq_ok.2 ⟨_, _, m₁, ha, evalAll_two hb he, rfl⟩
  rw [eval_apply_name (by decide) hcook, run_bind_of_ok hargs, call_cook]

section

variable (hp : Removes p x y) (hform : (Expr.var f).isForm = false)
  (hf : m.scope.get? f = some (.proc p))

include hform hf

theorem eval_apply_argument_error {fault : Fault} (ha : eval host ea m = .ok v m₁)
    (he : eval host e m₁ = .error fault m₂) :
    eval host (.apply (.var f) [ea, e]) m = .error fault m₂ := by
  have hfront : evalAll host [ea] m = .ok [v] m₁ :=
    evalAll_cons_eq_ok.2 ⟨v, [], m₁, ha, rfl, rfl⟩
  have hargs : evalAll host ([ea] ++ e :: []) m = .error fault m₂ :=
    evalAll_append_of_error hfront he
  rw [eval_apply_name hform hf]
  exact run_bind_of_error hargs

include hp

theorem eval_removes (ha : eval host ea m = .ok (.num (.int a)) m₁)
    (he : eval host e m₁ = .ok (.flags xs) m₂) :
    eval host (.apply (.var f) [ea, e]) m = .error .wrongKind m₂ := by
  rw [eval_apply_name hform hf, run_bind_of_ok (evalAll_two ha he), hp.call_limit]

theorem eval_removes_ne_ok : eval host (.apply (.var f) args) m ≠ .ok v m₁ := by
  rw [eval_apply_name hform hf]
  intro h
  obtain ⟨vs, m₂, -, hcall⟩ := run_bind_eq_ok.1 h
  exact hp.call_ne_ok hcall

end

/-- `cook` drops the clips that are too short and then fills the cuts that are. Taking the two steps
by their own procedures ends in a fault, for all limits and flags, and a call of one of these
procedures comes to no value with any arguments. Run on the flags and the limit, in this order, which
their contracts do not admit, they do take the steps of `cook`. -/
theorem cook_removes_mincut_minclip_fail {σ : Type} (host : Host σ) (m m₁ m₂ m₃ : Machine σ)
    (ea eb e : Expr) (a b : Int) (xs : Flags)
    (hcook : m.scope.get? "cook" = some (.proc .cook))
    (hcut : m.scope.get? "mincut" = some (.proc .mincut))
    (hclip : m₁.scope.get? "minclip" = some (.proc .minclip))
    (ha : eval host ea m = .ok (.num (.int a)) m₁) (hb : eval host eb m₁ = .ok (.num (.int b)) m₂)
    (he : eval host e m₂ = .ok (.flags xs) m₃) :
    eval host (.apply (.var "cook") [ea, eb, e]) m =
      .ok (.flags (dropShort false true a (dropShort true false b xs))) m₃ ∧
    eval host (.apply (.var "minclip") [eb, e]) m₁ = .error .wrongKind m₃ ∧
    eval host (.apply (.var "mincut") [ea, .apply (.var "minclip") [eb, e]]) m =
      .error .wrongKind m₃ ∧
    (∀ args v m', eval host (.apply (.var "mincut") args) m ≠ .ok v m' ∧
      eval host (.apply (.var "minclip") args) m₁ ≠ .ok v m') ∧
    (do
      let clipped ← Prim.run .minclip [.flags xs, .num (.int b)]
      Prim.run .mincut [clipped, .num (.int a)]) =
      .ok (.flags (dropShort false true a (dropShort true false b xs))) := by
  have hinner : eval host (.apply (.var "minclip") [eb, e]) m₁ = .error .wrongKind m₃ :=
    eval_removes .minclip (by decide) hclip hb he
  refine ⟨eval_cook hcook ha hb he, hinner, ?_, fun args v m' => ⟨?_, ?_⟩, ?_⟩
  · exact eval_apply_argument_error (by decide) hcut ha hinner
  · exact eval_removes_ne_ok .mincut (by decide) hcut
  · exact eval_removes_ne_ok .minclip (by decide) hclip
  · rw [Removes.minclip.run_array, ok_bind, Removes.mincut.run_array]

def mute : Host Unit := ⟨fun _ u => u, none⟩

def elevenTicks : Expr :=
  .apply (.var "boolarr") ([1, 1, 0, 0, 1, 0, 0, 0, 1, 1, 1].map fun n => .num (.int n))

theorem eval_elevenTicks : eval mute elevenTicks ⟨initial, ()⟩ =
    .ok (.flags [true, true, false, false, true, false, false, false, true, true, true])
      ⟨initial, ()⟩ := by
  rfl

theorem cook_removes_mincut_minclip_fail_elevenTicks :
    eval mute (.apply (.var "cook") [.num (.int 2), .num (.int 2), elevenTicks])
      ⟨initial, ()⟩ =
        .ok (.flags [true, true, false, false, false, false, false, false, true, true, true])
          ⟨initial, ()⟩ ∧
    eval mute (.apply (.var "minclip") [.num (.int 2), elevenTicks]) ⟨initial, ()⟩ =
      .error .wrongKind ⟨initial, ()⟩ := by
  obtain ⟨hcook, hclip, -⟩ := cook_removes_mincut_minclip_fail mute _ _ _ _ (.num (.int 2))
    (.num (.int 2)) elevenTicks 2 2 _ rfl rfl rfl rfl rfl eval_elevenTicks
  exact ⟨hcook, hclip⟩

theorem cook_ne_mincut_minclip :
    eval mute (.apply (.var "cook") [.num (.int 2), .num (.int 2), elevenTicks])
      ⟨initial, ()⟩ =
        .ok (.flags [true, true, false, false, false, false, false, false, true, true, true])
          ⟨initial, ()⟩ ∧
    eval mute (.apply (.var "mincut") [.num (.int 2),
      .apply (.var "minclip") [.num (.int 2), elevenTicks]]) ⟨initial, ()⟩ =
      .error .wrongKind ⟨initial, ()⟩ :=
  ⟨rfl, rfl⟩

end Jumpcut.Script
