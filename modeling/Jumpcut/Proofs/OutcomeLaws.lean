import Jumpcut.Workspace.Console
import Mathlib.Data.List.Forall2

namespace Jumpcut

open List Session

namespace Outcome

variable {ε σ α β : Type}

@[simp] theorem pure_eq_ok {a b : α} : (pure a : Except ε α) = .ok b ↔ a = b := by
  simp [pure, Except.pure]

@[simp] theorem ok_bind (a : α) (f : α → Except ε β) : (.ok a : Except ε α) >>= f = f a := rfl

theorem bind_eq_ok {x : Except ε α} {f : α → Except ε β} {b : β} :
    x >>= f = .ok b ↔ ∃ a, x = .ok a ∧ f a = .ok b := by
  cases x with
  | error e => exact ⟨nofun, nofun⟩
  | ok a => simp

theorem exists_bind_pure {x : Except ε α} {f : α → β} :
    (∃ b, (x >>= fun a => pure (f a)) = .ok b) ↔ ∃ a, x = .ok a := by
  simp only [bind_eq_ok, pure_eq_ok]
  constructor
  · rintro ⟨-, a, ha, -⟩
    exact ⟨a, ha⟩
  · rintro ⟨a, ha⟩
    exact ⟨f a, a, ha, rfl⟩

theorem of_ite {c P : Prop} [Decidable c] {x y r : α} (h : (if c then x else y) = r)
    (hx : x = r → P) (hy : y = r → P) : P := by
  split at h
  · exact hx h
  · exact hy h

theorem eq_ok_of_toOption {x : Except ε α} {a : α} (h : x.toOption = some a) : x = .ok a := by
  cases x with
  | error e => cases h
  | ok b => rw [Option.some.inj h]

theorem map_eq_ok {x : Except ε α} {f : α → β} {b : β} :
    x.map f = .ok b ↔ ∃ a, x = .ok a ∧ f a = b := by
  cases x with
  | error e => exact ⟨nofun, nofun⟩
  | ok a => simp [Except.map]

theorem mapM_eq_ok {f : α → Except ε β} {xs : List α} {ys : List β} :
    xs.mapM f = .ok ys ↔ Forall₂ (fun x y => f x = .ok y) xs ys := by
  induction xs generalizing ys with
  | nil => rw [mapM_nil, pure_eq_ok, forall₂_nil_left_iff, eq_comm]
  | cons x xs ih =>
    simp only [mapM_cons, bind_eq_ok, pure_eq_ok, ih, forall₂_cons_left_iff]
    constructor
    · rintro ⟨y, hy, zs, hzs, rfl⟩
      exact ⟨y, zs, hy, hzs, rfl⟩
    · rintro ⟨y, zs, hy, hzs, rfl⟩
      exact ⟨y, hy, zs, hzs, rfl⟩

theorem mapM_map_ok {γ : Type} (f : α → Except ε β) (g : β → γ) (xs : List α) :
    xs.mapM (fun x => (f x).map g) = (xs.mapM f).map (map g) := by
  induction xs with
  | nil => rfl
  | cons x xs ih =>
    rw [mapM_cons, mapM_cons, ih]
    cases f x with
    | error e => rfl
    | ok y => cases xs.mapM f <;> rfl

theorem exists_forall₂ {R : α → β → Prop} {xs : List α} (h : ∀ x ∈ xs, ∃ y, R x y) :
    ∃ ys, Forall₂ R xs ys := by
  induction xs with
  | nil => exact ⟨[], .nil⟩
  | cons x xs ih =>
    obtain ⟨y, hy⟩ := h x (.head _)
    obtain ⟨ys, hys⟩ := ih fun z hz => h z (.tail _ hz)
    exact ⟨y :: ys, .cons hy hys⟩

theorem exists_of_mem_right {R : α → β → Prop} {xs : List α} {ys : List β}
    (h : Forall₂ R xs ys) {y : β} (hy : y ∈ ys) : ∃ x ∈ xs, R x y := by
  induction h with
  | nil => cases hy
  | cons hR _ ih =>
    rcases mem_cons.1 hy with rfl | htail
    · exact ⟨_, .head _, hR⟩
    · obtain ⟨x, hx, hR⟩ := ih htail
      exact ⟨x, .tail _ hx, hR⟩

theorem forall₂_of_getElem? {R : α → β → Prop} {xs : List α} {ys : List β}
    (hlength : xs.length = ys.length)
    (h : ∀ (i : Nat) x y, xs[i]? = some x → ys[i]? = some y → R x y) : Forall₂ R xs ys := by
  rw [forall₂_iff_get]
  refine ⟨hlength, fun i hx hy => ?_⟩
  exact h i _ _ (getElem?_eq_getElem hx) (getElem?_eq_getElem hy)

theorem map_eq_of_forall₂ {γ : Type} {f : α → γ} {g : β → γ} {xs : List α} {ys : List β}
    (h : Forall₂ (fun x y => g y = f x) xs ys) : ys.map g = xs.map f := by
  rw [← forall₂_eq_eq_eq, forall₂_map_left_iff, forall₂_map_right_iff]
  exact h.flip

theorem mapM_ok_iff {f : α → Except ε β} {xs : List α} :
    (∃ ys, xs.mapM f = .ok ys) ↔ ∀ x ∈ xs, ∃ y, f x = .ok y := by
  induction xs with
  | nil => simp
  | cons x xs ih =>
    simp only [mapM_cons, bind_eq_ok, pure_eq_ok, forall_mem_cons, ← ih]
    constructor
    · rintro ⟨_, y, hy, ys, hys, rfl⟩
      exact ⟨⟨y, hy⟩, ys, hys⟩
    · rintro ⟨⟨y, hy⟩, ys, hys⟩
      exact ⟨_, y, hy, ys, hys, rfl⟩

theorem length_le_rank {step : α → α → Prop} (rank : α → Nat)
    (hstep : ∀ x y, step x y → rank y < rank x) {x : α} {xs : List α}
    (hrun : (x :: xs).IsChain step) : xs.length ≤ rank x := by
  induction xs generalizing x with
  | nil => exact Nat.zero_le _
  | cons y ys ih =>
    obtain ⟨hxy, hrest⟩ := isChain_cons_cons.1 hrun
    exact Nat.lt_of_le_of_lt (ih hrest) (hstep x y hxy)

theorem run_bind_eq_ok {x : EStateM ε σ α} {f : α → EStateM ε σ β} {s t : σ} {b : β} :
    (x >>= f) s = .ok b t ↔ ∃ a r, x s = .ok a r ∧ f a r = .ok b t := by
  change EStateM.bind x f s = .ok b t ↔ _
  rw [EStateM.bind]
  cases x s with
  | error e r => simp
  | ok a r => simp

@[simp] theorem run_pure_eq_ok {a b : α} {s t : σ} :
    (pure a : EStateM ε σ α) s = .ok b t ↔ a = b ∧ s = t := by
  simp [pure, EStateM.pure]

@[simp] theorem run_throw_ne_ok {e : ε} {s t : σ} {b : α} :
    (throw e : EStateM ε σ α) s ≠ .ok b t := by
  change EStateM.Result.error e s ≠ .ok b t
  simp

theorem run_bind_of_ok {x : EStateM ε σ α} {f : α → EStateM ε σ β} {s t : σ} {a : α}
    (h : x s = .ok a t) : (x >>= f) s = f a t := by
  change EStateM.bind x f s = f a t
  rw [EStateM.bind, h]

theorem run_bind_of_error {x : EStateM ε σ α} {f : α → EStateM ε σ β} {s t : σ} {e : ε}
    (h : x s = .error e t) : (x >>= f) s = .error e t := by
  change EStateM.bind x f s = .error e t
  rw [EStateM.bind, h]

theorem forall_of_run_mapM {f : α → EStateM ε σ β} {P : β → Prop}
    (hf : ∀ a s b s', f a s = .ok b s' → P b) {xs : List α} {ys : List β} {s s' : σ}
    (h : (xs.mapM f) s = .ok ys s') : ys.length = xs.length ∧ ∀ y ∈ ys, P y := by
  induction xs generalizing ys s s' with
  | nil =>
    rw [mapM_nil, run_pure_eq_ok] at h
    rw [← h.1]
    simp
  | cons x xs ih =>
    simp only [mapM_cons, run_bind_eq_ok, run_pure_eq_ok] at h
    obtain ⟨y, s₁, hy, ys, s₂, hys, rfl, -⟩ := h
    obtain ⟨hlength, hall⟩ := ih hys
    exact ⟨by rw [length_cons, length_cons, hlength],
      forall_mem_cons.2 ⟨hf x s y s₁ hy, hall⟩⟩

theorem run'_eq_some {x : EStateM ε σ α} {s : σ} {a : α} :
    x.run' s = some a ↔ ∃ t, x s = .ok a t := by
  change (match x s with | .ok a _ => some a | .error _ _ => none) = some a ↔ _
  cases x s with
  | error e t => simp
  | ok b t => simp

theorem exists_ok_of_run' {x : EStateM ε σ α} {s : σ} (h : (x.run' s).isSome) :
    ∃ a t, x s = .ok a t := by
  obtain ⟨a, ha⟩ := Option.isSome_iff_exists.1 h
  exact ⟨a, run'_eq_some.1 ha⟩

end Outcome

open Outcome

variable {α : Type} {w w' : Workspace}

theorem Console.fail_ne_ok (c : Console) (message : String) {a : α} :
    (c.fail message : Session α) w ≠ .ok a w' := by
  intro h
  simp only [Console.fail, run_bind_eq_ok] at h
  obtain ⟨-, w₁, -, -, w₂, -, -, w₃, -, w₄, w₅, -, h⟩ := h
  split at h
  · exact run_throw_ne_ok h
  · exact run_throw_ne_ok h

theorem Session.ofExcept_eq_ok {x : Except Fault α} {a : α} :
    ofExcept x w = .ok a w' ↔ x = .ok a ∧ w = w' := by
  cases x with
  | error e => simp [ofExcept]
  | ok b => simp [ofExcept]

theorem Session.ofExcept_ok (a : α) : ofExcept (.ok a) = pure a := rfl

theorem Console.check_ok (c : Console) (a : α) : c.check (.ok a) = pure a := rfl

theorem Console.check_eq_ok {c : Console} {x : Except Fault α} {a : α} :
    c.check x w = .ok a w' ↔ x = .ok a ∧ w = w' := by
  rw [Console.check.eq_def]
  split
  · simp
  · simp [c.fail_ne_ok]
  · simp

end Jumpcut
