import Jumpcut.CommandLine.Value

namespace Jumpcut.CommandLine

inductive ArgForm : Type
  | flag | single | many
  deriving DecidableEq, Repr

structure ArgOption where
  names : List String
  kind : ArgKind := .text
  form : ArgForm := .single
  choices : Option (List String) := none
  metavar : Option String := none
  help : String := ""
  deriving DecidableEq, Repr

structure Positional where
  name : String
  many : Bool := true
  choices : Option (List String) := none
  metavar : String := "[file ...] [options]"
  deriving DecidableEq, Repr

inductive Entry : Type
  | heading : String → Entry
  | option : ArgOption → Entry

namespace Entry

def flag (names : List String) (help : String) : Entry := .option { names, form := .flag, help }

def taking (kind : ArgKind) (names : List String) (metavar help : String) : Entry :=
  .option { names, kind, metavar := some metavar, help }

def collecting (kind : ArgKind) (names : List String) (metavar help : String) : Entry :=
  .option { names, kind, form := .many, metavar := some metavar, help }

end Entry

structure Program where
  title : Option String
  positional : Positional
  entries : List Entry
  defaults : Values
  pages : List (String × String) := []
  macros : List (List String × List String) := []

def replaceHyphens (new : String) (cs : List Char) : String :=
  String.join (cs.map fun c => if c = '-' then new else c.toString)

def underscored (name : String) : String :=
  String.ofList (name.toList.take 2) ++ replaceHyphens "_" (name.toList.drop 2)

namespace ArgOption

def name (o : ArgOption) : String := o.names.headD ""

def key (o : ArgOption) : String :=
  replaceHyphens "" (o.name.toList.take 2) ++ replaceHyphens "_" (o.name.toList.drop 2)

def isNamed (o : ArgOption) (arg : String) : Bool :=
  o.names.contains arg || (o.names.map underscored).contains arg

end ArgOption

def helpOption : ArgOption :=
  { names := ["--help", "-h"]
    form := .flag
    help := "Show info about this program or option then exit" }

namespace Program

def allEntries (p : Program) : List Entry := p.entries ++ [.option helpOption]

def options (p : Program) : List ArgOption :=
  p.allEntries.filterMap fun
    | .option o => some o
    | .heading _ => none

def find? (p : Program) (arg : String) : Option ArgOption := p.options.find? (·.isNamed arg)

end Program

end Jumpcut.CommandLine
