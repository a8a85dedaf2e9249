import Jumpcut.CommandLine.Program
import Jumpcut.Text.Lines
import Jumpcut.Text.Wrap

namespace Jumpcut.CommandLine

def wrapLines (columns : Nat) (text : String) : Except Fault String := do
  let lines ← (Setting.parts '\n' text).mapM fun line =>
    Text.fill ((columns : Int) - 3) "" (String.ofList (line.toList.takeWhile Text.isBlank)) line
  return "\n".intercalate lines ++ "\n"

def spaces (n : Nat) : String := String.ofList (List.replicate n ' ')

def optionLine (width : Int) (split : Nat) (indent : String) (o : ArgOption) :
    Except Fault String := do
  let line := indent ++ ", ".intercalate o.names.reverse ++
    (match o.metavar with
      | some m => " " ++ m
      | none => "")
  if o.help = "" then return line
  else if line.length < split then
    Text.fill width (line ++ spaces (split - line.length)) (spaces split) o.help
  else return line ++ "\n" ++ (← Text.fill width (spaces split) (spaces split) o.help)

def entryLines (width : Int) (split : Nat) : (first : Bool) → (indent : String) → List Entry →
    Except Fault String
  | _, _, [] => .ok ""
  | true, _, .heading t :: es => do
    return "\n  " ++ t ++ (← entryLines width split false "    " es)
  | false, indent, .heading t :: es => do
    return "\n\n  " ++ t ++ (← entryLines width split false indent es)
  | _, indent, .option o :: es => do
    let line ← optionLine width split indent o
    return "\n" ++ line ++ (← entryLines width split false indent es)

namespace Program

def usage (p : Program) (columns : Nat) (positionals : List Positional) : Except Fault String := do
  let width : Int := (columns : Int) - 3
  let split ← (← Number.mul (.int width) (.float 0.44)).trunc
  return "Usage: " ++ " ".intercalate (positionals.map (·.metavar)) ++ "\n\nOptions:" ++
    (← entryLines width (split + 3).toNat true "  " p.allEntries) ++ "\n\n"

def optionPage (p : Program) (columns : Nat) (o : ArgOption) : Except Fault String :=
  let head := "  " ++ ", ".intercalate o.names ++ " " ++ o.metavar.getD "" ++ "\n\n"
  let facts :=
    match o.form with
    | .flag => "    type: flag\n"
    | form =>
      (if form = .many then "    nargs: *\n" else "") ++
      (match (p.defaults.get o.key).default? with
        | some d => "    default: " ++ d ++ "\n"
        | none => "") ++
      (match o.choices with
        | some cs => "    choices: " ++ ", ".intercalate cs ++ "\n"
        | none => "")
  let body :=
    match if p.title.isSome then p.pages.lookup o.name else none with
    | some page => Text.indentLines "    " page ++ "\n"
    | none => "    " ++ o.help ++ "\n\n"
  wrapLines columns (head ++ facts ++ body)

def frontPage (p : Program) (columns : Nat) : Except Fault String :=
  wrapLines columns ((p.pages.lookup "_").getD "")

end Program

end Jumpcut.CommandLine
