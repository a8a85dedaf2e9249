import Jumpcut.Fault
import Jumpcut.Json.Access
import Jumpcut.Text.Case
import Jumpcut.Text.Lines
import Jumpcut.Xml.Basic

/-!
Reading documents. The text is cut into marks, and these are put together with a stack of open
elements. Comments and processing instructions are left out, and names are expanded with the
namespace that their first part is bound to.
-/
namespace Jumpcut.Xml

inductive Mark : Type
  | opening : (name : String) → (attrs : List (String × String)) → (closed : Bool) → Mark
  | closing : (name : String) → Mark
  | text : (plain : Bool) → List Char → Mark
  | doctype : Mark

def isSpace (c : Char) : Bool := c = ' ' || c = '\t' || c = '\n'

def isAllowed (c : Char) : Bool :=
  if c.toNat < 32 then isSpace c || c = '\r' else c.toNat != 0xfffe && c.toNat != 0xffff

def isNameStart (c : Char) : Bool :=
  c.isAlpha || c = '_' || c = ':' ||
    (128 ≤ c.toNat && (c.toNat ≥ 0xc0 && c.toNat != 0xd7 && c.toNat != 0xf7))

def isNameChar (c : Char) : Bool :=
  isNameStart c || c.isDigit || c = '-' || c = '.' || c.toNat = 0xb7

def skipSpace (cs : List Char) : List Char := cs.dropWhile isSpace

def name : List Char → Option (String × List Char)
  | c :: cs =>
    if isNameStart c then
      some (String.ofList (c :: cs.takeWhile isNameChar), cs.dropWhile isNameChar)
    else none
  | [] => none

def splitAt? (mark : List Char) : List Char → Option ((List Char) × List Char)
  | [] => if mark.isEmpty then some ([], []) else none
  | c :: cs =>
    if mark.isPrefixOf (c :: cs) then some ([], (c :: cs).drop mark.length)
    else (splitAt? mark cs).map fun (a, b) => (c :: a, b)

def digitsValue? (base : Nat) (value? : Char → Option Nat) : List Char → Option Nat
  | [] => none
  | cs => cs.foldlM (fun n c => do
    let d ← value? c
    if d < base then some (n * base + d) else none) 0

def charOf? (n : Nat) : Option Char :=
  if h : n.isValidChar then
    let c := Char.ofNatAux n h
    if isAllowed c then some c else none
  else none

def reference? : List Char → Option Char
  | '#' :: 'x' :: ds => (digitsValue? 16 Text.hexValue? ds).bind charOf?
  | '#' :: ds => (digitsValue? 10 Text.hexValue? ds).bind charOf?
  | cs =>
    match String.ofList cs with
    | "amp" => some '&'
    | "lt" => some '<'
    | "gt" => some '>'
    | "quot" => some '"'
    | "apos" => some '\''
    | _ => none

/-- The value of an attribute from the text between its quotes. `pending` holds what was read of a
reference. -/
def attrValue (pending : Option (List Char)) : List Char → Option (List Char)
  | [] => if pending.isSome then none else some []
  | c :: cs =>
    match pending with
    | some r =>
      if c = ';' then do
        let x ← reference? r.reverse
        return x :: (← attrValue none cs)
      else attrValue (some (c :: r)) cs
    | none =>
      if c = '&' then attrValue (some []) cs
      else if c = '<' then none
      else do return (if isSpace c then ' ' else c) :: (← attrValue none cs)

def oneAttr (cs : List Char) : Option ((String × String) × List Char) := do
  let (n, cs) ← name cs
  match skipSpace cs with
  | '=' :: cs =>
    match skipSpace cs with
    | q :: cs =>
      if q = '"' || q = '\'' then
        let (v, cs) ← splitAt? [q] cs
        return ((n, String.ofList (← attrValue none v)), cs)
      else none
    | [] => none
  | _ => none

def attributes : (fuel : Nat) → List Char → Option ((List (String × String) × Bool) × List Char)
  | 0, _ => none
  | n + 1, cs =>
    match skipSpace cs with
    | '>' :: rest => some (([], false), rest)
    | '/' :: '>' :: rest => some (([], true), rest)
    | rest =>
      if rest.length = cs.length then none
      else do
        let (a, rest) ← oneAttr rest
        let ((as, closed), rest) ← attributes n rest
        return ((a :: as, closed), rest)

def skipQuoted (cs : List Char) : Option (List Char) :=
  match skipSpace cs with
  | q :: rest =>
    if (q = '"' || q = '\'') && rest.length + 1 < cs.length then (splitAt? [q] rest).map (·.2)
    else none
  | [] => none

def skipDeclarations (quote : Option Char) : List Char → Option (List Char)
  | [] => none
  | c :: cs =>
    match quote with
    | some q => skipDeclarations (if c = q then none else quote) cs
    | none =>
      if c = '"' || c = '\'' then skipDeclarations (some c) cs
      else if c = ']' then some cs
      else skipDeclarations none cs

def skipDoctype (cs : List Char) : Option (List Char) := do
  let rest := skipSpace cs
  if rest.length = cs.length then none
  else
    let (_, rest) ← name rest
    let rest ←
      if "SYSTEM".toList.isPrefixOf (skipSpace rest) then skipQuoted ((skipSpace rest).drop 6)
      else if "PUBLIC".toList.isPrefixOf (skipSpace rest) then
        (skipQuoted ((skipSpace rest).drop 6)).bind skipQuoted
      else some rest
    let rest ← match skipSpace rest with
      | '[' :: rest => skipDeclarations none rest
      | rest => some rest
    match skipSpace rest with
    | '>' :: rest => some rest
    | _ => none

def instruction (cs : List Char) : Option (List Char) := do
  let (n, rest) ← name cs
  if n.toLower = "xml" then none
  else
    match rest with
    | '?' :: '>' :: rest => some rest
    | c :: _ => if isSpace c then (splitAt? "?>".toList rest).map (·.2) else none
    | [] => none

def comment (cs : List Char) : Option (List Char) := do
  let (_, rest) ← splitAt? "--".toList cs
  match rest with
  | '>' :: rest => some rest
  | _ => none

def closingMark (cs : List Char) : Option (Option Mark × List Char) := do
  let (n, cs) ← name cs
  match skipSpace cs with
  | '>' :: cs => some (some (.closing n), cs)
  | _ => none

def openingMark (fuel : Nat) (cs : List Char) : Option (Option Mark × List Char) := do
  let (n, cs) ← name cs
  let ((as, closed), cs) ← attributes fuel cs
  return (some (.opening n as closed), cs)

def referenceMark (cs : List Char) : Option (Option Mark × List Char) := do
  let (r, cs) ← splitAt? [';'] cs
  return (some (.text false [← reference? r]), cs)

def mark (fuel : Nat) : List Char → Option ((Option Mark) × List Char)
  | '<' :: '/' :: cs => closingMark cs
  | '<' :: '?' :: cs => (instruction cs).map fun r => (none, r)
  | '<' :: '!' :: '-' :: '-' :: cs => (comment cs).map fun r => (none, r)
  | '<' :: '!' :: cs =>
    if "[CDATA[".toList.isPrefixOf cs then
      (splitAt? "]]>".toList (cs.drop 7)).map fun (t, r) => (some (.text false t), r)
    else if "DOCTYPE".toList.isPrefixOf cs then
      (skipDoctype (cs.drop 7)).map fun r => (some .doctype, r)
    else none
  | '<' :: cs => openingMark fuel cs
  | '&' :: cs => referenceMark cs
  | cs =>
    let run := cs.takeWhile fun c => c != '<' && c != '&'
    if Text.occurs "]]>".toList run then none
    else some (some (.text true run), cs.drop run.length)

/-- All marks of a text. Each takes at least one character, so the length is fuel enough. -/
def marks : (fuel : Nat) → List Char → Option (List Mark)
  | _, [] => some []
  | 0, _ => none
  | n + 1, cs => do
    let (m, rest) ← mark (n + 1) cs
    let ms ← marks n rest
    return match m with
      | some m => m :: ms
      | none => ms

structure Open where
  (name tag : String)
  attrs : List (String × String)
  text : List Char
  children : List Xml
  scope : List (String × String)

structure Reading where
  stack : List Open
  root : Option Xml
  doctype : Bool

def splitName (name : String) : Option (String × String) :=
  match name.toList.splitOn ':' with
  | [l] => some ("", String.ofList l)
  | [p, l] => if p.isEmpty || l.isEmpty then none else some (String.ofList p, String.ofList l)
  | _ => none

def xmlSpace : String := "http://www.w3.org/XML/1998/namespace"

def expand (scope : List (String × String)) (isAttr : Bool) (name : String) : Option String := do
  let (p, l) ← splitName name
  if p = "" ∧ isAttr then some l
  else
    match scope.lookup p with
    | some "" => some l
    | some uri => some ("\x7b" ++ uri ++ "\x7d" ++ l)
    | none => if p = "" then some l else none

def bindings (attrs : List (String × String)) : Option (List (String × String)) :=
  attrs.filterMapM fun (n, v) =>
    if n = "xmlns" then some (some ("", v))
    else
      match n.toList with
      | 'x' :: 'm' :: 'l' :: 'n' :: 's' :: ':' :: p =>
        if v = "" || p = "xmlns".toList then none else some (some (String.ofList p, v))
      | _ => some none

def isBinding (n : String) : Bool := n = "xmlns" || n.startsWith "xmlns:"

def allDistinct : List String → Bool
  | [] => true
  | a :: as => !as.contains a && allDistinct as

def openTag (scope : List (String × String)) (n : String) (attrs : List (String × String)) :
    Option Open := do
  if !allDistinct (attrs.map (·.1)) then none
  else
    let scope := (← bindings attrs).reverse ++ scope
    let tag ← expand scope false n
    let attrs ← (attrs.filter fun a => !isBinding a.1).mapM fun a => do
      return (← expand scope true a.1, a.2)
    if allDistinct (attrs.map (·.1)) then some ⟨n, tag, attrs, [], [], scope⟩ else none

def Open.close (o : Open) : Xml :=
  .element o.tag o.attrs (if o.text.isEmpty then none else some (String.ofList o.text.reverse))
    o.children.reverse

namespace Reading

def add (r : Reading) (x : Xml) : Reading :=
  match r.stack with
  | [] => { r with root := some x }
  | o :: os => { r with stack := { o with children := x :: o.children } :: os }

def step (r : Reading) : Mark → Option Reading
  | .opening n as closed =>
    if r.stack.isEmpty && r.root.isSome then none
    else do
      let scope := match r.stack with
        | o :: _ => o.scope
        | [] => [("xml", xmlSpace)]
      let o ← openTag scope n as
      return if closed then r.add o.close else { r with stack := o :: r.stack }
  | .closing n =>
    match r.stack with
    | o :: os => if o.name = n then some ({ r with stack := os }.add o.close) else none
    | [] => none
  | .text plain cs =>
    match r.stack with
    | [] => if plain && cs.all isSpace then some r else none
    | o :: os =>
      let o := if o.children.isEmpty then { o with text := cs.reverse ++ o.text } else o
      some { r with stack := o :: os }
  | .doctype =>
    if r.doctype || r.root.isSome || !r.stack.isEmpty then none else some { r with doctype := true }

end Reading

def isVersion (v : String) : Bool :=
  v.toList.all fun c => c.isAlphanum || c = '.' || c = '_' || c = ':' || c = '-'

def declaration (cs : List Char) : Option ((Option String) × List Char) :=
  match "<?xml".toList.isPrefixOf cs, cs.drop 5 with
  | true, c :: rest =>
    if isSpace c then do
      let (as, rest) ← pairs rest.length (c :: rest)
      match as with
      | ("version", v) :: as =>
        if !isVersion v then none
        else match as with
        | [] => some (none, rest)
        | [("encoding", e)] => some (some e, rest)
        | [("standalone", s)] => if s = "yes" || s = "no" then some (none, rest) else none
        | [("encoding", e), ("standalone", s)] =>
          if s = "yes" || s = "no" then some (some e, rest) else none
        | _ => none
      | _ => none
    else some (none, cs)
  | _, _ => some (none, cs)
where
  pairs : Nat → List Char → Option ((List (String × String)) × List Char)
    | 0, _ => none
    | n + 1, cs =>
      match skipSpace cs with
      | '?' :: '>' :: rest => some ([], rest)
      | rest =>
        if rest.length = cs.length then none
        else do
          let (a, rest) ← oneAttr rest
          let (as, rest) ← pairs n rest
          return (a :: as, rest)

def decodeAs (encoding : Option String) (cs : List Char) : Option (List Char) :=
  match encoding.map String.toLower with
  | none | some "utf-8" | some "utf8" => some cs
  | some "us-ascii" => if cs.all (·.toNat < 128) then some cs else none
  | some "iso-8859-1" =>
    some ((String.ofList cs).toUTF8.toList.map fun b => Char.ofNat b.toNat)
  | some _ => none

def parse? (text : String) : Option Xml := do
  let cs := Text.unifyLines text.toList
  let cs := match cs with
    | '\ufeff' :: rest => rest
    | _ => cs
  let (encoding, cs) ← declaration cs
  let cs ← decodeAs encoding cs
  if !cs.all isAllowed then none
  else
    let ms ← marks cs.length cs
    let r ← ms.foldlM Reading.step ⟨[], none, false⟩
    if r.stack.isEmpty then r.root else none

def parse (text : String) : Except Fault Xml :=
  match parse? text with
  | some x => .ok x
  | none => .error .badXml

end Jumpcut.Xml
