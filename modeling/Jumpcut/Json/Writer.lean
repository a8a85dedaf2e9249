import Jumpcut.Json.Basic
import Jumpcut.Text.Quoted

namespace Jumpcut.Json

def escaped (c : Char) : String :=
  if c = '"' then "\\\"" else if c = '\\' then "\\\\"
  else if c = '\n' then "\\n" else if c = '\r' then "\\r" else if c = '\t' then "\\t"
  else if c = '\x0c' then "\\f" else if c = '\x08' then "\\b"
  else if ' ' ≤ c ∧ c ≤ '~' then c.toString
  else if c.toNat < 0x10000 then "\\u" ++ Text.hexText 4 c.toNat
  else
    let n := c.toNat - 0x10000
    "\\u" ++ Text.hexText 4 (0xd800 + n / 0x400) ++ "\\u" ++ Text.hexText 4 (0xdc00 + n % 0x400)

def quote (s : String) : String := "\"" ++ String.join (s.toList.map escaped) ++ "\""

def floatText (x : Float) : String :=
  match Exact.classify x with
  | .nan => "NaN"
  | .inf neg => if neg then "-Infinity" else "Infinity"
  | .finite .. => Decimal.plain.float x

mutual

def compact : Json → String
  | .null => "null"
  | .bool b => if b then "true" else "false"
  | .int i => toString i
  | .float x => floatText x
  | .str s => quote s
  | .arr vs => "[" ++ compactItems vs ++ "]"
  | .obj ms => "\x7b" ++ compactMembers ms ++ "\x7d"

def compactItems : List Json → String
  | [] => ""
  | [v] => v.compact
  | v :: vs => v.compact ++ ", " ++ compactItems vs

def compactMembers : List (String × Json) → String
  | [] => ""
  | [(k, v)] => quote k ++ ": " ++ v.compact
  | (k, v) :: ms => quote k ++ ": " ++ v.compact ++ ", " ++ compactMembers ms

end

def newline (n : Nat) : String := "\n" ++ String.ofList (List.replicate n ' ')

mutual

def pretty (step depth : Nat) : Json → String
  | .arr [] => "[]"
  | .arr vs => "[" ++ prettyItems step (depth + step) vs ++ newline depth ++ "]"
  | .obj [] => "\x7b\x7d"
  | .obj ms => "\x7b" ++ prettyMembers step (depth + step) ms ++ newline depth ++ "\x7d"
  | .null => "null"
  | .bool b => if b then "true" else "false"
  | .int i => toString i
  | .float x => floatText x
  | .str s => quote s

def prettyItems (step depth : Nat) : List Json → String
  | [] => ""
  | [v] => newline depth ++ pretty step depth v
  | v :: vs => newline depth ++ pretty step depth v ++ "," ++ prettyItems step depth vs

def prettyMembers (step depth : Nat) : List (String × Json) → String
  | [] => ""
  | [(k, v)] => newline depth ++ quote k ++ ": " ++ pretty step depth v
  | (k, v) :: ms =>
    newline depth ++ quote k ++ ": " ++ pretty step depth v ++ "," ++ prettyMembers step depth ms

end

end Jumpcut.Json
