import Jumpcut.Text.CaseTable
import Jumpcut.Text.Class

namespace Jumpcut.Text

def recase? (rows : List CaseRow) (several : List (Nat × List Nat)) (c : Char) :
    Option (List Char) :=
  let n := c.toNat
  match several.find? (·.1 == n) with
  | some r => some (r.2.map Char.ofNat)
  | none =>
    (rows.find? fun r => r.1 ≤ n && n ≤ r.2.1 && (n - r.1) % r.2.2.1 == 0).map fun r =>
      [Char.ofNat ((n : Int) + r.2.2.2).toNat]

def counterpart? (rows : List CaseRow) (c : Char) : Option Char :=
  let origin (r : CaseRow) : Int := c.toNat - r.2.2.2
  (rows.find? fun r =>
    r.1 ≤ origin r && origin r ≤ r.2.1 && (origin r - r.1) % r.2.2.1 == 0).map fun r =>
      Char.ofNat (origin r).toNat

def upperChar (c : Char) : List Char :=
  if c.toNat < 128 then [c.toUpper] else (recase? upperRows upperSeveral c).getD [c]

def lowerChar (c : Char) : List Char :=
  if c.toNat < 128 then [c.toLower]
  else (recase? lowerOwn lowerSeveral c).getD [(counterpart? upperRows c).getD c]

def titleChar (c : Char) : List Char := (recase? titleOwn titleSeveral c).getD (upperChar c)

def casedNext (cs : List Char) : Bool :=
  match cs.dropWhile isIgnorable with
  | c :: _ => isCased c
  | [] => false

/-- The lower-case form of a letter between `before` (nearest first) and `after`: a capital sigma
that ends a word becomes a final one. -/
def lowerAt (before : List Char) (c : Char) (after : List Char) : List Char :=
  if c.toNat = 0x3a3 then
    [Char.ofNat (if casedNext before && !casedNext after then 0x3c2 else 0x3c3)]
  else lowerChar c

def upper (s : String) : String := String.ofList (s.toList.flatMap upperChar)

def lowerFrom (before : List Char) : List Char → List Char
  | [] => []
  | c :: cs => lowerAt before c cs ++ lowerFrom (c :: before) cs

def lower (s : String) : String := String.ofList (lowerFrom [] s.toList)

def titleFrom (before : List Char) : List Char → List Char
  | [] => []
  | c :: cs =>
    let inWord := match before with
      | p :: _ => isCased p
      | [] => false
    (if inWord then lowerAt before c cs else titleChar c) ++ titleFrom (c :: before) cs

def title (s : String) : String := String.ofList (titleFrom [] s.toList)

end Jumpcut.Text
