import Jumpcut.Media.Codec
import Mathlib.Tactic.Basic

namespace Jumpcut

open Container CodecRules

namespace CodecRules

variable {r : CodecRules} {codec c ext : String}

def Permits (r : CodecRules) (codec : String) : Prop :=
  codec ∉ r.excluded ∧ (r.strict = true → ∃ cs, r.preferred = some cs ∧ codec ∈ cs)

/-- Rules that restrict anything name codecs, and the first of these is not excluded. -/
def Coherent (r : CodecRules) : Prop :=
  match r.preferred with
  | none => r.strict = false ∧ r.excluded = []
  | some [] => False
  | some (c :: _) => c ∉ r.excluded

theorem permits_iff_of_preferred {cs : List String} (h : r.preferred = some cs) :
    r.Permits codec ↔ ¬ ((r.strict && !cs.contains codec) || r.excluded.contains codec) = true := by
  cases hstrict : r.strict <;> simp [Permits, h, hstrict, and_comm]

theorem permits_iff_of_not_strict (h : r.strict = false) :
    r.Permits codec ↔ ¬ r.excluded.contains codec = true := by
  simp [Permits, h]

theorem refused_unless {p : Prop} [Decidable p] {e : Fault} :
    (if p then .error e else .ok codec : Except Fault String) = .ok c ↔ codec = c ∧ ¬ p := by
  split
  · next h => simp [h]
  · next h => simp [h]

theorem demand_eq_ok : r.demand ext codec = .ok c ↔ codec = c ∧ r.Permits codec := by
  rw [demand]
  split
  · next hstrict hnone => simp [Permits, hstrict, hnone]
  · next hstrict hsome =>
    rw [permits_iff_of_preferred hsome, hstrict, Bool.true_and]
    exact refused_unless
  · next hstrict =>
    rw [permits_iff_of_not_strict hstrict]
    exact refused_unless

theorem adapt_of_permits (h : r.Permits codec) : r.adapt codec = .ok codec := by
  rw [adapt]
  split
  · rfl
  · next hsome => rw [if_neg ((permits_iff_of_preferred hsome).1 h)]

theorem Coherent.exists_adapt (h : r.Coherent) (codec : String) :
    ∃ c, r.adapt codec = .ok c ∧ r.Permits c := by
  by_cases hpermits : r.Permits codec
  · exact ⟨codec, adapt_of_permits hpermits, hpermits⟩
  rw [Coherent] at h
  split at h
  · exact absurd ⟨by simp [h.2], by simp [h.1]⟩ hpermits
  · exact h.elim
  · next c cs hsome =>
    refine ⟨c, ?_, h, fun _ => ⟨_, hsome, .head _⟩⟩
    rw [permits_iff_of_preferred hsome, Decidable.not_not] at hpermits
    rw [adapt, hsome]
    dsimp only
    rw [if_pos hpermits]

end CodecRules

theorem Container.coherent_ofExt (kind : StreamKind) (key : String) :
    ((ofExt key).rules kind).Coherent := by
  unfold ofExt
  split <;> cases kind <;> simp [rules, Coherent, unknown, pcmCodecs]

namespace StreamKind

variable {kind : StreamKind} {wish ext codec : String} {streams : Option (List String)} {c : Container}

def meant (kind : StreamKind) (wish : String) (streams : Option (List String)) : Option String :=
  if wish = "auto" then (streams.bind List.head?).getD kind.defaultCodec
  else if wish = "copy" then streams.bind List.head?
  else wish

theorem codecFor_auto : codecFor kind "auto" streams ext c =
    (c.rules kind).adapt ((streams.bind List.head?).getD kind.defaultCodec) := by
  rcases streams with _ | _ | ⟨first, rest⟩ <;> rfl

theorem codecFor_eq_ok (h : wish ≠ "auto") : codecFor kind wish streams ext c = .ok codec ↔
    kind.meant wish streams = some codec ∧ (kind.isUnset codec = true ∨ (c.rules kind).Permits codec) := by
  have hcheck (given : String) :
      (if kind.isUnset given then .ok given else (c.rules kind).demand ext given) = .ok codec ↔
        given = codec ∧ (kind.isUnset codec = true ∨ (c.rules kind).Permits codec) := by
    split
    · next hunset =>
      rw [Except.ok.injEq]
      exact ⟨fun heq => ⟨heq, .inl (heq ▸ hunset)⟩, And.left⟩
    · next hset =>
      rw [demand_eq_ok]
      refine and_congr_right fun heq => ?_
      subst heq
      simp [hset]
  rw [meant, if_neg h]
  by_cases hcopy : wish = "copy"
  · subst hcopy
    rw [if_pos rfl]
    rcases streams with _ | _ | ⟨first, rest⟩
    · simp [codecFor]
    · simp [codecFor]
    · rw [Option.bind_some, List.head?_cons, Option.some.injEq]
      exact hcheck first
  · rw [if_neg hcopy, Option.some.injEq, ← hcheck wish, codecFor]
    all_goals simp [h, hcopy]

end StreamKind

open StreamKind in
/-- A codec that is chosen is one that the container permits. What a wish stands for is chosen if it is
permitted, and a choice that is left to the program never fails. -/
theorem codecFor_permitted (kind : StreamKind) (wish ext key : String) (streams : Option (List String)) :
    let rules := (ofExt key).rules kind
    (∀ codec, codecFor kind wish streams ext (ofExt key) = .ok codec →
      kind.isUnset codec = false → rules.Permits codec) ∧
    (∀ codec, kind.meant wish streams = some codec → rules.Permits codec →
      codecFor kind wish streams ext (ofExt key) = .ok codec) ∧
    (wish = "auto" → ∃ codec, codecFor kind wish streams ext (ofExt key) = .ok codec) := by
  have hcoherent := coherent_ofExt kind key
  by_cases hauto : wish = "auto"
  · subst hauto
    rw [codecFor_auto]
    obtain ⟨chosen, hchosen, hpermits⟩ :=
      hcoherent.exists_adapt ((streams.bind List.head?).getD kind.defaultCodec)
    refine ⟨fun codec hcodec _ => ?_, fun codec hmeant hcodec => ?_, fun _ => ⟨chosen, hchosen⟩⟩
    · rw [hchosen, Except.ok.injEq] at hcodec
      exact hcodec ▸ hpermits
    · rw [meant, if_pos rfl, Option.some.injEq] at hmeant
      rw [hmeant, adapt_of_permits hcodec]
  · refine ⟨fun codec hcodec hset => ?_, fun codec hmeant hcodec => ?_, fun h => absurd h hauto⟩
    · rw [codecFor_eq_ok hauto, hset] at hcodec
      exact hcodec.2.resolve_left Bool.false_ne_true
    · exact (codecFor_eq_ok hauto).2 ⟨hmeant, .inr hcodec⟩

theorem codecFor_permitted_prores :
    codecFor .video "auto" (some ["prores"]) ".mp4" (ofExt "mp4") = .ok "h264" ∧
      ((ofExt "mp4").rules .video).Permits "h264" :=
  ⟨rfl, (codecFor_permitted .video "auto" ".mp4" "mp4" (some ["prores"])).1 "h264" rfl rfl⟩

end Jumpcut
