import Jumpcut.Fault
import Jumpcut.Path
import Jumpcut.Text.Case
import Jumpcut.Text.Quoted
import Jumpcut.Text.Utf8

namespace Jumpcut

structure Url where
  (scheme host path : String)
  deriving DecidableEq, Repr

namespace Url

def withParameters : List String :=
  ["", "ftp", "hdl", "prospero", "http", "imap", "https", "shttp", "rtsp", "rtsps", "rtspu", "sip",
    "sips", "mms", "sftp", "tel"]

def isSchemeChar (c : Char) : Bool := c.isAlphanum || c = '+' || c = '-' || c = '.'

def splitBefore (p : Char → Bool) (cs : List Char) : List Char × List Char :=
  (cs.takeWhile (!p ·), cs.dropWhile (!p ·))

def splitScheme (cs : List Char) : String × List Char :=
  match cs, splitBefore (· = ':') cs with
  | c :: _, (s, _ :: rest) =>
    if c.isAlpha && s.all isSchemeChar then ((String.ofList s).toLower, rest) else ("", cs)
  | _, _ => ("", cs)

def isDisguised (c : Char) : Bool :=
  [0x2047, 0x2048, 0x2049, 0x2100, 0x2101, 0x2105, 0x2106, 0x2a74, 0xfe13, 0xfe16, 0xfe55, 0xfe56,
    0xfe5f, 0xfe6b, 0xff03, 0xff0f, 0xff1a, 0xff1f, 0xff20].contains c.toNat

def isFourPart (cs : List Char) : Bool :=
  let ps := cs.splitOn '.'
  ps.length == 4 && ps.all fun p =>
    !p.isEmpty && p.length ≤ 3 && p.all Char.isDigit && (p.length == 1 || p.head? != some '0') &&
      ((String.ofList p).toNat?.getD 256) < 256

def isEightGroups (cs : List Char) : Bool :=
  let scope := cs.splitOn '%'
  let groups := (scope.headD []).splitOn ':'
  let isHex (g : List Char) : Bool :=
    !g.isEmpty && g.length ≤ 4 && g.all fun c => (Text.hexValue? c).isSome
  let groups := match groups.getLast? with
    | some l => if l.contains '.' then
        (if isFourPart l then groups.dropLast ++ [['0'], ['0']] else [['x']])
      else groups
    | none => groups
  let inner := (groups.drop 1).dropLast
  let gaps := (inner.filter List.isEmpty).length
  (scope.length == 1 || (scope.length == 2 && !(scope.getD 1 []).isEmpty)) &&
  groups.length ≥ 3 && groups.length ≤ 9 && gaps ≤ 1 &&
  (if gaps = 1 then
    let front := if groups.head? = some [] then groups.drop 1 else groups
    let whole := if groups.getLast? = some [] then front.dropLast else front
    (groups.head? != some [] || inner.head? == some []) &&
    (groups.getLast? != some [] || inner.getLast? == some []) &&
    (whole.filter fun g => !g.isEmpty).length < 8 && whole.all fun g => g.isEmpty || isHex g
  else groups.length == 8 && groups.all isHex)

def isBracketHost (cs : List Char) : Bool :=
  match cs with
  | 'v' :: rest =>
    match splitBefore (· = '.') rest with
    | (v, _ :: more) =>
      !v.isEmpty && v.all (fun c => (Text.hexValue? c).isSome) && !more.isEmpty && !more.contains '\n'
    | _ => false
  | _ => isEightGroups cs

def checkHost (host : List Char) : Except Fault Unit :=
  if host.contains '[' != host.contains ']' then .error .badValue
  else if host.contains '[' &&
      !isBracketHost (((host.dropWhile (· != '[')).drop 1).takeWhile (· != ']')) then
    .error .badValue
  else if host.any isDisguised then .error .badValue
  else .ok ()

def dropParameters (path : List Char) : List Char :=
  let last := (path.reverse.takeWhile (· != '/')).reverse
  let front := path.take (path.length - last.length)
  front ++ last.takeWhile (· != ';')

def parse (text : String) : Except Fault Url := do
  let cs := (text.toList.dropWhile fun c => c.toNat ≤ 32).filter fun c =>
    c != '\t' && c != '\r' && c != '\n'
  let (scheme, rest) := splitScheme cs
  let (host, rest) := match rest with
    | '/' :: '/' :: rest => splitBefore (fun c => c = '/' || c = '?' || c = '#') rest
    | _ => ([], rest)
  checkHost host
  let path := (rest.takeWhile (· != '#')).takeWhile (· != '?')
  let path := if withParameters.contains scheme then dropParameters path else path
  return ⟨scheme, String.ofList host, String.ofList path⟩

def domain (u : Url) : String :=
  let ps := u.host.toList.splitOn '.'
  String.ofList (['.'].intercalate (ps.drop (ps.length - 2)))

def bytesOf : List Char → List UInt8
  | '%' :: a :: b :: cs =>
    match Text.hexValue? a, Text.hexValue? b with
    | some x, some y => UInt8.ofNat (x * 16 + y) :: bytesOf cs
    | _, _ => UInt8.ofNat '%'.toNat :: bytesOf (a :: b :: cs)
  | c :: cs => UInt8.ofNat c.toNat :: bytesOf cs
  | [] => []

def unquote (s : String) : String :=
  String.join ((s.toList.splitBy fun a b => (a.toNat < 128) == (b.toNat < 128)).map fun run =>
    if run.all (·.toNat < 128) then Text.lossy (bytesOf run) else String.ofList run)

def filePath (text : String) : Except Fault String := do
  let u ← parse text
  return Path.normalize (Path.join ("//" ++ u.host ++ "/") (unquote u.path))

def isPlain (b : UInt8) : Bool :=
  let c := Char.ofNat b.toNat
  b < 128 && (c.isAlphanum || "_.-~/".toList.contains c)

def quotePath (path : String) : String :=
  String.join (path.toUTF8.toList.map fun b =>
    if isPlain b then (Char.ofNat b.toNat).toString
    else "%" ++ (Text.hexText 2 b.toNat).toUpper)

def ofPath (path : String) : String := "file://" ++ quotePath path

end Url

end Jumpcut
