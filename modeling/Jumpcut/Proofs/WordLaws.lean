import Jumpcut.Proofs.ReadingLaws
import Jumpcut.Proofs.ArithmeticLaws
import Jumpcut.Render.Sound

namespace Jumpcut

open Exact Number

namespace Wave.SampleFormat

section Float

variable {e p b : Nat} {x : Float}

section Magnitude

variable {m b frac : Nat} {x : Int}

end Magnitude

end Float

variable {f : SampleFormat} {w : Nat}

end Wave.SampleFormat

end Jumpcut
