import Jumpcut.Proofs.OutcomeLaws
import Jumpcut.Render.Video

namespace Jumpcut

open Outcome

namespace Session

variable {α β : Type} {w w' : Workspace}

def outcome : EStateM.Result Fault Workspace α → Workspace
  | .ok _ w => w
  | .error _ w => w

def MuteAt (w : Workspace) (act : Session α) : Prop := (outcome (act w)).frames = w.frames

def Mute (act : Session α) : Prop := ∀ w, MuteAt w act

theorem Mute.frames {act : Session α} (h : Mute act) {a : α} (hrun : act w = .ok a w') :
    w'.frames = w.frames := by
  have hleft := h w
  rwa [MuteAt, hrun] at hleft

theorem Mute.pure (a : α) : Mute (pure a : Session α) := fun _ => rfl

theorem Mute.throw (e : Fault) : Mute (throw e : Session α) := fun _ => rfl

theorem Mute.modify {f : Workspace → Workspace} (h : ∀ w, (f w).frames = w.frames) :
    Mute (modify f : Session PUnit) := h

theorem Mute.ofExcept (x : Except Fault α) : Mute (ofExcept x) := by
  cases x with
  | error e => exact .throw e
  | ok a => exact .pure a

theorem MuteAt.set (h : w'.frames = w.frames) :
    MuteAt w (MonadStateOf.set w' : Session PUnit) := h

theorem MuteAt.bind {x : Session α} {f : α → Session β} (hx : MuteAt w x) (hf : ∀ a, Mute (f a)) :
    MuteAt w (x >>= f) := by
  rw [MuteAt] at hx ⊢
  change (outcome (EStateM.bind x f w)).frames = w.frames
  rw [EStateM.bind]
  cases hrun : x w with
  | error e w' => rwa [hrun] at hx
  | ok a w' =>
    rw [hrun] at hx
    exact (hf a w').trans hx

theorem Mute.bind {x : Session α} {f : α → Session β} (hx : Mute x) (hf : ∀ a, Mute (f a)) :
    Mute (x >>= f) := fun w => (hx w).bind hf

theorem Mute.get {f : Workspace → Session α} (h : ∀ w, MuteAt w (f w)) :
    Mute (MonadState.get >>= f) := h

theorem tryCatch_of_ok {x : Session α} {handle : Fault → Session α} {a : α} (h : x w = .ok a w') :
    tryCatch x handle w = .ok a w' := by
  change EStateM.tryCatch x handle w = _
  rw [EStateM.tryCatch, h]

theorem tryCatch_of_error {x : Session α} {handle : Fault → Session α} {e : Fault}
    (h : x w = .error e w') : tryCatch x handle w = handle e w' := by
  change EStateM.tryCatch x handle w = _
  rw [EStateM.tryCatch, h]
  rfl

theorem ok_of_tryCatch {x : Session α} {handle : Fault → Session α} {a : α}
    (hh : ∀ e v, handle e v ≠ .ok a w') (h : tryCatch x handle w = .ok a w') : x w = .ok a w' := by
  cases hrun : x w with
  | error e v =>
    rw [tryCatch_of_error hrun] at h
    exact absurd h (hh e v)
  | ok b v =>
    rw [tryCatch_of_ok hrun] at h
    exact h

theorem Mute.catch {x : Session α} {handle : Fault → Session α} (hx : Mute x)
    (hh : ∀ e, Mute (handle e)) : Mute (tryCatch x handle) := by
  intro w
  have hfirst := hx w
  rw [MuteAt] at hfirst ⊢
  cases hrun : x w with
  | error e w' =>
    rw [hrun] at hfirst
    rw [tryCatch_of_error hrun]
    exact (hh e w').trans hfirst
  | ok a w' =>
    rw [hrun] at hfirst
    rw [tryCatch_of_ok hrun]
    exact hfirst

theorem Mute.forM {f : α → Session PUnit} (hf : ∀ a, Mute (f a)) (xs : List α) :
    Mute (xs.forM f) := by
  induction xs with
  | nil => exact .pure ()
  | cons x xs ih => exact .bind (hf x) fun _ => ih

theorem Mute.of_ite {c : Prop} [Decidable c] {x : Session PUnit} (hx : Mute x) {rest : Session α}
    {a : α} (h : (if c then x >>= fun _ => rest else rest) w = .ok a w') :
    ∃ w₁, w₁.frames = w.frames ∧ rest w₁ = .ok a w' := by
  split at h
  · obtain ⟨_, w₁, hfirst, hrest⟩ := run_bind_eq_ok.1 h
    exact ⟨w₁, hx.frames hfirst, hrest⟩
  · exact ⟨w, rfl, h⟩

theorem frames_sendFrame {bytes : List UInt8} {u : Unit} (h : sendFrame bytes w = .ok u w') :
    w'.frames = w.frames ++ [bytes] := by
  obtain ⟨_, _, hget, hset⟩ := run_bind_eq_ok.1 h
  cases hget
  split at hset
  · exact absurd hset run_throw_ne_ok
  · cases hset
    rfl

theorem mute_write (s : String) : Mute (write s) := by
  refine .get fun w => ?_
  split
  · exact .set rfl
  · exact Mute.throw _ w

theorem mute_writeErr (s : String) : Mute (writeErr s) := .modify fun _ => rfl

theorem mute_record (command : List String) : Mute (record command) := .modify fun _ => rfl

theorem mute_now : Mute now := by
  refine .get fun w => ?_
  split
  · exact Mute.pure _ w
  · exact Mute.pure _ w
  · exact .bind (.set rfl) fun _ => .pure _

theorem mute_deposit (p : String) (b : ByteArray) : Mute (deposit p b) := by
  refine .catch (.get fun w => ?_) fun _ => .pure ()
  dsimp only
  split
  · exact .set rfl
  · exact Mute.throw _ w

theorem mute_copyInput (input : Option String) (out : String) : Mute (copyInput input out) := by
  cases input with
  | none => exact .pure ()
  | some p =>
    refine .get fun w => ?_
    split
    · exact mute_deposit out _ w
    · exact Mute.pure () w

theorem mute_start (command : List String) : Mute (start command) := by
  refine .bind (mute_record command) fun _ => .get fun w => .bind (.set rfl) fun _ => ?_
  dsimp only
  split
  · exact .bind (.throw _) fun _ => by
      split
      · exact .throw _
      · exact .pure ()
  · split
    · exact .throw _
    · exact .pure ()

theorem mute_encode (args : List String) (first : Option String) (medium : Option Medium) (k : Nat)
    (outs : List String) : Mute (encode args first medium k outs) := by
  induction outs generalizing k with
  | nil => exact .pure ()
  | cons out outs ih =>
    unfold encode
    dsimp only
    split
    · split
      · exact .bind (mute_deposit _ _) fun _ => ih _
      · exact ih _
    · split
      · exact .bind (mute_copyInput first out) fun _ => ih _
      · split
        · split
          · split
            · exact .bind (mute_deposit _ _) fun _ => ih _
            · exact ih _
          · exact .bind (mute_copyInput first out) fun _ => ih _
        · refine .get fun w => ?_
          split
          · exact (Mute.bind (mute_deposit _ _) fun _ => ih _) w
          · exact ih _ w

theorem mute_run (command : List String) : Mute (run command) := by
  refine .bind (mute_start command) fun _ => .get fun w => ?_
  dsimp only
  split
  · split
    · exact Mute.pure _ w
    · exact (Mute.bind (mute_encode _ _ _ _ _) fun _ => .pure _) w
  · split
    · exact Mute.pure _ w
    · exact Mute.pure _ w
  · split
    · exact Mute.pure _ w
    · split
      · exact (Mute.bind (mute_deposit _ _) fun _ => .pure _) w
      · exact Mute.pure _ w
  · exact Mute.pure _ w
  · exact Mute.pure _ w

end Session

namespace Console

open Session

theorem mute_overwrite (c : Console) (message : String) : Mute (c.overwrite message) := by
  rw [overwrite]
  split
  · exact .get fun w => mute_write _ w
  · exact .pure ()

theorem mute_note (c : Console) (message : String) : Mute (c.note message) := by
  rw [note]
  split
  · exact .bind (c.mute_overwrite "") fun _ => mute_writeErr _
  · exact .pure ()

end Console

namespace Bar

open Session

theorem mute_tick (b : Bar) (index : Number) : Mute (b.tick index) := by
  unfold tick
  dsimp only
  split
  · exact .pure ()
  · split
    · exact .throw _
    · refine .bind (.ofExcept _) fun progress => ?_
      split
      case' isTrue => refine .bind (.pure _) fun rate => ?_
      case' isFalse => refine .bind mute_now fun _ => .bind (.ofExcept _) fun rate => ?_
      all_goals
        refine .bind (.ofExcept _) fun eta => ?_
        split
        · exact .bind (.ofExcept _) fun _ => mute_write _
        · exact .get fun w => (Mute.bind (.ofExcept _) fun _ => mute_write _) w

theorem mute_start (b : Bar) (total : Number) (title : String) : Mute (b.start total title) := by
  refine .bind mute_now fun _ => .bind (.catch (.bind (mute_tick _ _) fun _ => .pure _) fun e => ?_)
    fun x => ?_
  · split
    · exact .pure _
    · exact .bind (.throw _) fun _ => .pure _
  · cases x <;> exact .pure _

theorem mute_finish : Mute finish := .get fun w => mute_write _ w

end Bar

namespace Transcoder

open Session

theorem mute_showCommand (t : Transcoder) (command : List String) : Mute (t.showCommand command) := by
  rw [showCommand]
  split
  · exact mute_writeErr _
  · exact .pure ()

theorem mute_feed (t : Transcoder) (args : List String) : Mute (t.feed args) :=
  .bind (t.mute_showCommand _) fun _ => .bind (mute_run _) fun _ => .pure ()

theorem mute_run (t : Transcoder) (args : List String) : Mute (t.run args) :=
  .bind (t.mute_showCommand _) fun _ => .bind (Session.mute_run _) fun _ => .pure ()

theorem mute_pipe (t : Transcoder) (args : List String) : Mute (t.pipe args) := by
  refine .bind (t.mute_showCommand _) fun _ =>
    .bind (.bind (Session.mute_run _) fun _ => .pure _) fun _ => ?_
  dsimp only
  split
  · exact .bind (mute_writeErr _) fun _ => .pure _
  · exact .pure _

end Transcoder

open Session

theorem SearchEvent.mute_perform (c : Console) (e : SearchEvent) : Mute (e.perform c) := by
  cases e with
  | note m => exact c.mute_note m
  | sought stamp => exact mute_record _

theorem Timeline.mute_rescale (t : Transcoder) (scale : Number) (temp file : String) :
    Mute (Timeline.rescale t scale temp file) := by
  refine .bind (t.mute_pipe _) fun messages => ?_
  dsimp only
  split
  · exact .bind (t.mute_run _) fun _ => .pure _
  · exact .pure _

end Jumpcut
