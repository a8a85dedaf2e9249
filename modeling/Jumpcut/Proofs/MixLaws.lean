import Jumpcut.Proofs.BufferLaws
import Jumpcut.Proofs.EncoderLaws
import Jumpcut.Proofs.WordLaws

namespace Jumpcut

open Outcome Wave List AudioClip Session Samples Bar

namespace Wave

namespace SampleFormat

end SampleFormat

namespace Samples

variable {f : SampleFormat} {words : List Nat} {s : Samples} {bytes : List UInt8}

end Samples

end Wave

namespace AudioClip

structure Plain (c : AudioClip) : Prop where
  speed : c.speed.toRat? = some 1
  volume : ∃ v : Number, c.volume = .number v ∧ v.eqv 1
  dur : 1 ≤ c.dur

def kept (per : Nat) (s : Samples) (c : AudioClip) : List Nat :=
  s.slice (c.offset * per).toNat ((c.offset + c.dur) * per).toNat

variable {c : AudioClip} {rate : Int} {tb : Rat} {per : Nat} {s : Samples}

namespace Laid

variable {name : String} {tick : Int} {clips : List AudioClip} {last : AudioClip}

end Laid

end AudioClip

namespace Timeline

variable {t : Timeline} {x : Extractor} {bar : Bar} {last c : AudioClip} {w w' : SoundWork}
  {s : Samples} {σ σ' : Workspace} {per : Nat}

section keeping

variable {α : Type} {buf : Option Samples} {act : Session α} {a : α}

end keeping

section

variable (h : sourceSound t x w c σ = .ok (s, w') σ')

include h

end

section Layer

variable {bar' : Bar} {l : Nat} {first : AudioClip} {rest : List AudioClip}
  {layers : List (List AudioClip)} {σ₁ σ₂ σ₃ : Workspace} {n : Int}

section

variable (hstart : bar.start (.int (first :: rest).length) "Creating new audio" σ = .ok bar' σ₁)
  (hsource : t.sourceSound x w first σ₁ = .ok (s, w') σ₂)

include hstart hsource

end

end Layer

def turned : Timeline where
  sources := [("0", ⟨"a.wav", "0", .null, .null, .null, [], [], []⟩)]
  tb := 2
  rate := 4
  resolution := (1, 1)
  background := "#000"
  v := []
  a := []
  chunks := none

end Timeline

end Jumpcut
