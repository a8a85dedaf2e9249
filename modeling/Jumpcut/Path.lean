namespace Jumpcut.Path

def cut (p : List Char) : List Char × List Char :=
  let tail := (p.reverse.takeWhile (· ≠ '/')).reverse
  (p.take (p.length - tail.length), tail)

def base (p : String) : String := String.ofList (cut p.toList).2

def dir (p : String) : String :=
  let head := (cut p.toList).1
  if head.all (· = '/') then String.ofList head
  else String.ofList (head.reverse.dropWhile (· = '/')).reverse

def splitExt (p : String) : String × String :=
  let (head, tail) := cut p.toList
  let dots := tail.takeWhile (· = '.')
  let body := tail.dropWhile (· = '.')
  if body.contains '.' then
    let ext := (body.reverse.takeWhile (· ≠ '.')).reverse
    let stem := body.take (body.length - ext.length - 1)
    (String.ofList (head ++ dots ++ stem), String.ofList ('.' :: ext))
  else (p, "")

def ext (p : String) : String := (splitExt p).2
def stem (p : String) : String := (splitExt p).1

def isAbsolute (p : String) : Bool := p.startsWith "/"

def join (a b : String) : String :=
  if isAbsolute b then b
  else if a = "" ∨ a.endsWith "/" then a ++ b
  else a ++ "/" ++ b

/-- Drops empty and one-dot parts and resolves two-dot parts; `done` is in reverse. -/
def resolve (rooted : Bool) (done : List String) : List String → List String
  | [] => done.reverse
  | "" :: ps => resolve rooted done ps
  | "." :: ps => resolve rooted done ps
  | ".." :: ps =>
    match done with
    | [] => resolve rooted (if rooted then [] else [".."]) ps
    | ".." :: _ => resolve rooted (".." :: done) ps
    | _ :: ds => resolve rooted ds ps
  | p :: ps => resolve rooted (p :: done) ps

def normalize (p : String) : String :=
  let cs := p.toList
  let slashes := (cs.takeWhile (· = '/')).length
  let front := if slashes = 0 then "" else if slashes = 2 then "//" else "/"
  let body := "/".intercalate (resolve (slashes ≠ 0) [] ((cs.splitOn '/').map String.ofList))
  if front = "" ∧ body = "" then "." else front ++ body

def absolute (cwd p : String) : String := normalize (join cwd p)

def appendStem (p addition : String) : String :=
  let (root, ext) := splitExt p
  root ++ addition ++ ext

end Jumpcut.Path
