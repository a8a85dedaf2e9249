import Jumpcut.CommandLine.Help

namespace Jumpcut.CommandLine

inductive Outcome : Type
  | values : Values → Outcome
  | page : String → Outcome

structure Reading where
  values : Values
  used : List ArgOption
  inputs : List String
  list : Option (String × ArgKind)
  wanted : Bool

def told {α : Type} : Except Fault α → Except Fault α
  | .error (.setting (.color c)) => .error (.setting (.color c))
  | .error (.setting e) => .error (.complaint e.message)
  | r => r

def toldAll {α : Type} : Except Fault α → Except Fault α
  | .error (.setting e) => .error (.complaint e.message)
  | r => r

def readValue (name : String) (kind : ArgKind) (choices : Option (List String)) (arg : String) :
    Except Fault ArgValue := do
  let v ← told (kind.read arg)
  match choices, v with
  | some cs, .text s =>
    if cs.contains s then return v
    else .error (.complaint (s ++ " is not a choice for " ++ name ++ "\nchoices are:\n  " ++
      ", ".intercalate cs))
  | _, _ => return v

def unknown (arg : String) : Fault :=
  .complaint ("Unknown " ++ (if arg.startsWith "--" then "option" else "short") ++ ": " ++ arg)

def isHelp (arg : String) : Bool := arg == "-h" || arg == "--help"

namespace Program

def takePlain (p : Program) (r : Reading) (arg : String) : Except Fault Reading :=
  match r.list with
  | some (key, kind) => do
    return { r with values := ← r.values.append key (← toldAll (kind.read arg)) }
  | none =>
    if arg.startsWith "--" then .error (unknown arg)
    else if p.positional.many then .ok { r with inputs := r.inputs ++ [arg] }
    else if r.wanted then do
      let v ← readValue p.positional.name .text p.positional.choices arg
      return { r with values := r.values.set p.positional.name v, wanted := false }
    else .error (unknown arg)

def markUsed (r : Reading) (o : ArgOption) : Except Fault Reading :=
  if o.form = .many then .ok { r with list := none }
  else if r.used.contains o then
    .error (.complaint ("Option " ++ o.name ++ " may not be used more than once."))
  else .ok { r with used := r.used ++ [o], list := none }

def readArgs (p : Program) (columns : Nat) : Reading → List String → Except Fault Outcome
  | r, [] =>
    let values := if p.positional.many then
        r.values.set p.positional.name (.many (r.inputs.map .text))
      else r.values
    if values.flag "help" then do
      let left := if p.positional.many || r.wanted then [p.positional] else []
      return .page (← p.usage columns left)
    else .ok (.values values)
  | r, arg :: rest =>
    match p.find? arg with
    | none => do readArgs p columns (← p.takePlain r arg) rest
    | some o => do
      let r ← markUsed r o
      if rest.head?.any isHelp then return .page (← p.optionPage columns o)
      else
        match o.form with
        | .flag => readArgs p columns { r with values := r.values.set o.key (.flag true) } rest
        | .many => readArgs p columns { r with list := some (o.key, o.kind) } rest
        | .single =>
          match rest with
          | [] => .error (.complaint (o.name ++ " needs argument."))
          | v :: rest => do
            let v ← readValue o.name o.kind o.choices v
            readArgs p columns { r with values := r.values.set o.key v } rest

def replaceFirst (old : String) (new : List String) : List String → List String
  | [] => []
  | a :: as => if a = old then new ++ as else a :: replaceFirst old new as

def expand (p : Program) (args : List String) : List String :=
  p.macros.foldl (fun args m =>
    (m.1 ++ m.1.map underscored).eraseDups.foldl (fun args old => replaceFirst old m.2 args) args)
    args

def parse (p : Program) (columns : Nat) (args : List String) : Except Fault Outcome :=
  if args.isEmpty && p.title.isSome then do return .page (← p.frontPage columns)
  else p.readArgs columns ⟨p.defaults, [], [], none, true⟩ (p.expand args)

end Program

end Jumpcut.CommandLine
