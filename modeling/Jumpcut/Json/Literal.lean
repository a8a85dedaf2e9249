import Jumpcut.Json.Basic
import Jumpcut.Text.Quoted

namespace Jumpcut.Json

mutual

def literal : Json → String
  | .null => "None"
  | .bool b => if b then "True" else "False"
  | .int i => toString i
  | .float x => Decimal.plain.float x
  | .str s => Text.quoted s
  | .arr vs => "[" ++ literalItems vs ++ "]"
  | .obj ms => "\x7b" ++ literalMembers ms ++ "\x7d"

def literalItems : List Json → String
  | [] => ""
  | [v] => v.literal
  | v :: vs => v.literal ++ ", " ++ literalItems vs

def literalMembers : List (String × Json) → String
  | [] => ""
  | [(k, v)] => Text.quoted k ++ ": " ++ v.literal
  | (k, v) :: ms => Text.quoted k ++ ": " ++ v.literal ++ ", " ++ literalMembers ms

end

def display : Json → String
  | .str s => s
  | v => v.literal

end Jumpcut.Json
