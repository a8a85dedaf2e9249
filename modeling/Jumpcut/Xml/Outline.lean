import Jumpcut.Text.Quoted
import Jumpcut.Xml.Basic

namespace Jumpcut.Xml

def attrsText (attrs : List (String × String)) : String :=
  "\x7b" ++ ", ".intercalate (attrs.map fun a => Text.quoted a.1 ++ ": " ++ Text.quoted a.2) ++ "\x7d"

mutual

def outline (limit depth : Nat) : Xml → String
  | .element tag attrs text children =>
    String.ofList (List.replicate (depth * 4) ' ') ++ "<" ++ tag ++ " " ++ attrsText attrs ++ "> " ++
      Text.strip (text.getD "") ++ "\n" ++
      (if depth < limit then outlineAll limit (depth + 1) children else "")

def outlineAll (limit depth : Nat) : List Xml → String
  | [] => ""
  | x :: xs => outline limit depth x ++ outlineAll limit depth xs

end

end Jumpcut.Xml
