import Jumpcut.Json.Basic

namespace Jumpcut.Json

export Text (hexValue?)

inductive Flaw : Type
  | malformed : (reason : String) → (rest : Nat) → Flaw
  | longInteger : (digits : Nat) → Flaw

abbrev Reading (α : Type) := Except Flaw α

def flaw {α : Type} (reason : String) (rest : List Char) : Reading α :=
  .error (.malformed reason rest.length)

def isSpace (c : Char) : Bool := c = ' ' || c = '\t' || c = '\n' || c = '\r'

def skip (cs : List Char) : List Char := cs.dropWhile isSpace

def hex4? (a b c d : Char) : Option Nat := do
  return (((← hexValue? a) * 16 + (← hexValue? b)) * 16 + (← hexValue? c)) * 16 + (← hexValue? d)

def isHigh (n : Nat) : Bool := 0xd800 ≤ n && n < 0xdc00
def isLow (n : Nat) : Bool := 0xdc00 ≤ n && n < 0xe000

def unitChar (n : Nat) : Char := if 0xd800 ≤ n ∧ n < 0xe000 then Char.ofNat 0xfffd else Char.ofNat n

def pairChar (hi lo : Nat) : Char := Char.ofNat (0x10000 + (hi - 0xd800) * 0x400 + (lo - 0xdc00))

def badUnit : String := "Invalid \\uXXXX escape"

def escape? : Char → Option Char
  | '"' => some '"'
  | '\\' => some '\\'
  | '/' => some '/'
  | 'b' => some '\x08'
  | 'f' => some '\x0c'
  | 'n' => some '\n'
  | 'r' => some '\r'
  | 't' => some '\t'
  | _ => none

def secondHalf? (n : Nat) : List Char → Reading (Option Nat)
  | '\\' :: 'u' :: a :: b :: c :: d :: e :: rest =>
    if isHigh n then
      match hex4? a b c d with
      | none => flaw badUnit ('u' :: a :: b :: c :: d :: e :: rest)
      | some m => .ok (if isLow m then some m else none)
    else .ok none
  | _ => .ok none

def text (start : List Char) : List Char → Reading (List Char × List Char)
  | [] => flaw "Unterminated string starting at" start
  | '"' :: cs => .ok ([], cs)
  | ['\\'] => flaw "Unterminated string starting at" start
  | '\\' :: 'u' :: a :: b :: c :: d :: rest =>
    match hex4? a b c d, rest with
    | some n, r :: rs =>
      match secondHalf? n (r :: rs) with
      | .error f => .error f
      | .ok (some m) => (text start (rs.drop 5)).map fun r => (pairChar n m :: r.1, r.2)
      | .ok none => (text start (r :: rs)).map fun r => (unitChar n :: r.1, r.2)
    | _, _ => flaw badUnit ('u' :: a :: b :: c :: d :: rest)
  | '\\' :: 'u' :: cs => flaw badUnit ('u' :: cs)
  | '\\' :: c :: cs =>
    match escape? c with
    | some d => (text start cs).map fun r => (d :: r.1, r.2)
    | none => flaw "Invalid \\escape" ('\\' :: c :: cs)
  | c :: cs =>
    if c.toNat ≤ 0x1f then flaw "Invalid control character at" (c :: cs)
    else (text start cs).map fun r => (c :: r.1, r.2)
termination_by cs => cs.length
decreasing_by all_goals simp_wf; try omega

def isAsciiDigit (c : Char) : Bool := '0' ≤ c && c ≤ '9'

def numeral (cs : List Char) : Reading (Json × List Char) :=
  let (sign, body) := match cs with
    | '-' :: r => (['-'], r)
    | _ => ([], cs)
  let whole := match body with
    | '0' :: _ => ['0']
    | _ => body.takeWhile isAsciiDigit
  if whole.isEmpty then flaw "Expecting value" cs
  else
    let rest := body.drop whole.length
    let frac := match rest with
      | '.' :: r => if (r.takeWhile isAsciiDigit).isEmpty then [] else '.' :: r.takeWhile isAsciiDigit
      | _ => []
    let rest := rest.drop frac.length
    let exp := match rest with
      | e :: r =>
        if e = 'e' ∨ e = 'E' then
          let sign := r.takeWhile fun c => c = '+' || c = '-'
          let sign := sign.take 1
          let ds := (r.drop sign.length).takeWhile isAsciiDigit
          if ds.isEmpty then [] else e :: sign ++ ds
        else []
      | [] => []
    let rest := rest.drop exp.length
    let all := String.ofList (sign ++ whole ++ frac ++ exp)
    if frac.isEmpty && exp.isEmpty then
      if Decimal.digitLimit < whole.length then .error (.longInteger whole.length)
      else .ok (.int ((Decimal.int? all).getD 0), rest)
    else .ok (.float ((Decimal.float? all).getD 0.0), rest)

def words : List (String × Json) := [("null", .null), ("true", .bool true), ("false", .bool false),
  ("NaN", .float (0.0 / 0.0)), ("Infinity", .float (1.0 / 0.0)),
  ("-Infinity", .float (-(1.0 / 0.0)))]

mutual

def value : (fuel : Nat) → List Char → Reading (Json × List Char)
  | 0, cs => flaw "Expecting value" cs
  | fuel + 1, cs =>
    match cs with
    | '"' :: rest => (text cs rest).map fun r => (.str (String.ofList r.1), r.2)
    | '[' :: rest =>
      match skip rest with
      | ']' :: rest' => .ok (.arr [], rest')
      | rest' => (items fuel rest').map fun r => (.arr r.1, r.2)
    | '\x7b' :: rest =>
      match skip rest with
      | '\x7d' :: rest' => .ok (.obj [], rest')
      | rest' => (members fuel [] rest').map fun r => (.obj r.1, r.2)
    | cs =>
      match words.find? fun w => w.1.toList.isPrefixOf cs with
      | some w => .ok (w.2, cs.drop w.1.length)
      | none => numeral cs

def items : (fuel : Nat) → List Char → Reading (List Json × List Char)
  | 0, cs => flaw "Expecting value" cs
  | fuel + 1, cs => do
    let (v, rest) ← value fuel cs
    match skip rest with
    | ']' :: rest' => return ([v], rest')
    | ',' :: rest' => do
      let (vs, rest'') ← items fuel (skip rest')
      return (v :: vs, rest'')
    | rest' => flaw "Expecting ',' delimiter" rest'

def members : (fuel : Nat) → List (String × Json) → List Char →
    Reading (List (String × Json) × List Char)
  | 0, _, cs => flaw "Expecting value" cs
  | fuel + 1, done, cs =>
    match cs with
    | '"' :: body => do
      let (name, rest) ← text cs body
      match skip rest with
      | ':' :: rest => do
        let (v, rest) ← value fuel (skip rest)
        let done := insert done (String.ofList name) v
        match skip rest with
        | '\x7d' :: rest => return (done, rest)
        | ',' :: rest => members fuel done (skip rest)
        | rest => flaw "Expecting ',' delimiter" rest
      | rest => flaw "Expecting ':' delimiter" rest
    | cs => flaw "Expecting property name enclosed in double quotes" cs

end

def whole (cs : List Char) : Reading Json := do
  if cs.head? = some (Char.ofNat 0xfeff) then flaw "Unexpected UTF-8 BOM (decode using utf-8-sig)" cs
  else
    let (v, rest) ← value (2 * cs.length + 2) (skip cs)
    match skip rest with
    | [] => return v
    | rest => flaw "Extra data" rest

def place (cs : List Char) (pos : Nat) : Nat × Nat :=
  let before := cs.take pos
  (before.count '\n' + 1, (before.reverse.takeWhile (· ≠ '\n')).length + 1)

def parse (s : String) : Except JsonDefect Json :=
  let cs := s.toList
  match whole cs with
  | .ok v => .ok v
  | .error (.malformed reason rest) =>
    let pos := cs.length - rest
    let (line, column) := place cs pos
    .error (.malformed reason line column pos)
  | .error (.longInteger digits) => .error (.longInteger digits)

end Jumpcut.Json
