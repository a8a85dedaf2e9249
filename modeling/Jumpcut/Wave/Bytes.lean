namespace Jumpcut.Wave

inductive ByteOrder : Type
  | little | big
  deriving DecidableEq, Repr

def littleBytes : (w : Nat) → Nat → List UInt8
  | 0, _ => []
  | w + 1, n => UInt8.ofNat n :: littleBytes w (n / 256)

def ofLittleBytes : List UInt8 → Nat
  | [] => 0
  | b :: bs => b.toNat + 256 * ofLittleBytes bs

def ByteOrder.toBytes (o : ByteOrder) (w n : Nat) : List UInt8 :=
  match o with
  | .little => littleBytes w n
  | .big => (littleBytes w n).reverse

def ByteOrder.ofBytes (o : ByteOrder) (bs : List UInt8) : Nat :=
  match o with
  | .little => ofLittleBytes bs
  | .big => ofLittleBytes bs.reverse

theorem length_littleBytes (w n : Nat) : (littleBytes w n).length = w := by
  induction w generalizing n with
  | zero => rfl
  | succ w ih => rw [littleBytes, List.length_cons, ih]

end Jumpcut.Wave
