import Jumpcut.Path

namespace Jumpcut

structure Tree where
  files : List (String × ByteArray)
  dirs : List String

namespace Tree

def read? (t : Tree) (p : String) : Option ByteArray := t.files.lookup p

def isFile (t : Tree) (p : String) : Bool := (t.read? p).isSome

def isDir (t : Tree) (p : String) : Bool := t.dirs.contains p

def exists_ (t : Tree) (p : String) : Bool := t.isFile p || t.isDir p

def put (t : Tree) (p : String) (b : ByteArray) : Tree :=
  if t.isFile p then
    { t with files := t.files.map fun f => if f.1 == p then (p, b) else f }
  else { t with files := t.files ++ [(p, b)] }

def addDir (t : Tree) (p : String) : Tree :=
  if t.isDir p then t else { t with dirs := t.dirs ++ [p] }

def addDirs (t : Tree) (p : String) : Tree :=
  let parts := (p.toList.splitOn '/').map String.ofList
  (parts.foldl (fun (s : String × Tree) part =>
    if part = "" then s
    else
      let q := s.1 ++ "/" ++ part
      (q, s.2.addDir q)) ("", t)).2

def place (t : Tree) (p : String) (b : ByteArray) : Tree := (t.addDirs (Path.dir p)).put p b

def remove (t : Tree) (p : String) : Tree :=
  { t with files := t.files.filter (·.1 != p) }

def within (dir p : String) : Bool := p == dir || (dir ++ "/").toList.isPrefixOf p.toList

def removeAll (t : Tree) (dir : String) : Tree :=
  ⟨t.files.filter (!within dir ·.1), t.dirs.filter (!within dir ·)⟩

def sorted (names : List String) : List String := names.mergeSort fun a b => !(b < a)

def children (t : Tree) (dir : String) : List String :=
  let below := (t.files.map (·.1) ++ t.dirs).filter fun p => Path.dir p == dir && p != dir
  sorted (below.map Path.base)

end Tree

end Jumpcut
