namespace Jumpcut.Text

def replacement : Char := '\ufffd'

/-- How a lead byte goes on: the bits it carries, the least and greatest second byte, and how many
bytes follow. -/
def leadByte? (b : Nat) : Option (Nat × Nat × Nat × Nat) :=
  if 0xc2 ≤ b ∧ b ≤ 0xdf then some (b - 0xc0, 0x80, 0xbf, 1)
  else if b = 0xe0 then some (0, 0xa0, 0xbf, 2)
  else if b = 0xed then some (b - 0xe0, 0x80, 0x9f, 2)
  else if 0xe1 ≤ b ∧ b ≤ 0xef then some (b - 0xe0, 0x80, 0xbf, 2)
  else if b = 0xf0 then some (0, 0x90, 0xbf, 3)
  else if b = 0xf4 then some (b - 0xf0, 0x80, 0x8f, 3)
  else if 0xf1 ≤ b ∧ b ≤ 0xf3 then some (b - 0xf0, 0x80, 0xbf, 3)
  else none

/-- What is open while a character is read: its value so far, the bounds of the next byte, and how
many bytes are to come. -/
structure Partial where
  (value low high left : Nat)

def lossyFrom (p : Option Partial) : List UInt8 → List Char
  | [] => if p.isSome then [replacement] else []
  | b :: bs =>
    let n := b.toNat
    let (front, p) : List Char × Option Partial :=
      match p with
      | some p =>
        if p.low ≤ n ∧ n ≤ p.high then
          let v := p.value * 64 + n % 64
          if p.left = 1 then ([Char.ofNat v], none) else ([], some ⟨v, 0x80, 0xbf, p.left - 1⟩)
        else
          let (cs, q) := fresh n
          (replacement :: cs, q)
      | none => fresh n
    front ++ lossyFrom p bs
where
  fresh (n : Nat) : List Char × Option Partial :=
    if n < 0x80 then ([Char.ofNat n], none)
    else
      match leadByte? n with
      | some (v, low, high, left) => ([], some ⟨v, low, high, left⟩)
      | none => ([replacement], none)

def lossy (bs : List UInt8) : String := String.ofList (lossyFrom none bs)

end Jumpcut.Text
