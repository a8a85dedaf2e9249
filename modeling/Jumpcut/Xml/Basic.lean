import Jumpcut.Text.Class

namespace Jumpcut

inductive Xml : Type
  | element : (tag : String) → (attrs : List (String × String)) → (text : Option String) →
      (children : List Xml) → Xml
  deriving Inhabited

namespace Xml

def tag : Xml → String
  | .element t _ _ _ => t

def attrs : Xml → List (String × String)
  | .element _ as _ _ => as

def text : Xml → Option String
  | .element _ _ t _ => t

def children : Xml → List Xml
  | .element _ _ _ cs => cs

def attr? (x : Xml) (name : String) : Option String := x.attrs.lookup name

def leaf (tag text : String) : Xml := .element tag [] (some text) []

def node (tag : String) (children : List Xml) : Xml := .element tag [] none children

def nodeWith (tag : String) (attrs : List (String × String)) (children : List Xml) : Xml :=
  .element tag attrs none children

def escapeChar : Char → String
  | '&' => "&amp;"
  | '<' => "&lt;"
  | '>' => "&gt;"
  | c => c.toString

def escapeAttrChar : Char → String
  | '"' => "&quot;"
  | '\r' => "&#13;"
  | '\n' => "&#10;"
  | '\t' => "&#09;"
  | c => escapeChar c

def escape (s : String) : String := String.join (s.toList.map escapeChar)

def escapeAttr (s : String) : String := String.join (s.toList.map escapeAttrChar)

def head (tag : String) (attrs : List (String × String)) : String :=
  "<" ++ tag ++ String.join (attrs.map fun a => " " ++ a.1 ++ "=\"" ++ escapeAttr a.2 ++ "\"")

def isBlank (s : String) : Bool := s.toList.all Text.isBlank

def newline (n : Nat) : String := "\n" ++ String.ofList (List.replicate n '\t')

mutual

def render (depth : Nat) : Xml → String
  | .element tag attrs text [] =>
    match text with
    | none | some "" => head tag attrs ++ " />"
    | some t => head tag attrs ++ ">" ++ escape t ++ "</" ++ tag ++ ">"
  | .element tag attrs text (c :: cs) =>
    head tag attrs ++ ">" ++
      (if isBlank (text.getD "") then newline (depth + 1) else escape (text.getD "")) ++
      renderAll depth (c :: cs) ++ "</" ++ tag ++ ">"

def renderAll (depth : Nat) : List Xml → String
  | [] => ""
  | [c] => render (depth + 1) c ++ newline depth
  | c :: cs => render (depth + 1) c ++ newline (depth + 1) ++ renderAll depth cs

end

def document (root : Xml) : String :=
  "<?xml version='1.0' encoding='utf-8'?>\n" ++ root.render 0

end Xml

end Jumpcut
