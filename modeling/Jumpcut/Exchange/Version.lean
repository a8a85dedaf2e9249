import Jumpcut.Number.Basic
import Jumpcut.Setting.Reader

namespace Jumpcut

structure Version where
  (major minor micro : Int)
  deriving DecidableEq, Repr

namespace Version

def parse (text : String) : Except Fault Version :=
  let ps := Setting.parts '.' text
  if ps.length > 3 then .error (.complaint "Version string: Too many separators!")
  else
    match (ps ++ List.replicate (3 - ps.length) "0").mapM Decimal.int? with
    | some [a, b, c] => .ok ⟨a, b, c⟩
    | _ => .error (.complaint "Version string: Could not convert to int.")

def display (v : Version) : String :=
  toString v.major ++ "." ++ toString v.minor ++ "." ++ toString v.micro

def isLike (v : Version) (ns : List Number) : Bool :=
  let own : List Number := [.int v.major, .int v.minor, .int v.micro]
  let own := if ns.length = 2 then own.take 2 else own
  own.length == ns.length && (own.zip ns).all fun p => p.1.eqv p.2

def isFirst (v : Version) : Bool := v.isLike [.int 1, .int 0] || v.isLike [.int 0, .int 1]

def isSecond (v : Version) : Bool := v.isLike [.int 2, .int 0] || v.isLike [.int 0, .int 2]

end Version

end Jumpcut
