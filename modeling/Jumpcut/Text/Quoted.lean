import Jumpcut.Text.Class

namespace Jumpcut.Text

def hexDigit (n : Nat) : Char := (Nat.toDigits 16 (n % 16)).headD '0'

def hexText : (width : Nat) → Nat → String
  | 0, _ => ""
  | w + 1, n => hexText w (n / 16) ++ (hexDigit n).toString

def quoteFor (cs : List Char) : Char := if cs.contains '\'' && !cs.contains '"' then '"' else '\''

def quotedChar (quote c : Char) : String :=
  if c = quote ∨ c = '\\' then String.ofList ['\\', c]
  else if c = '\t' then "\\t"
  else if c = '\n' then "\\n"
  else if c = '\r' then "\\r"
  else if isPrintable c then c.toString
  else if c.toNat < 0x100 then "\\x" ++ hexText 2 c.toNat
  else if c.toNat < 0x10000 then "\\u" ++ hexText 4 c.toNat
  else "\\U" ++ hexText 8 c.toNat

def quoted (s : String) : String :=
  let q := quoteFor s.toList
  q.toString ++ String.join (s.toList.map (quotedChar q)) ++ q.toString

def quotedBytes (bs : List UInt8) : String :=
  let cs := bs.map fun b => Char.ofNat b.toNat
  let q := quoteFor cs
  let one (c : Char) : String :=
    if 127 ≤ c.toNat then "\\x" ++ hexText 2 c.toNat else quotedChar q c
  "b" ++ q.toString ++ String.join (cs.map one) ++ q.toString

def quotedList (xs : List String) : String := "[" ++ ", ".intercalate (xs.map quoted) ++ "]"

end Jumpcut.Text
