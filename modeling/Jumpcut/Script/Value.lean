import Jumpcut.Flags.Text
import Jumpcut.Number.Power
import Jumpcut.Script.Prim

namespace Jumpcut.Script

inductive Value : Type
  | none : Value
  | bool : Bool → Value
  | num : Number → Value
  | char : Char → Value
  | str : String → Value
  | null : Value
  | pair : Value → Value → Value
  | flags : Flags → Value
  | proc : Prim → Value

namespace Value

def ofList : List Value → Value
  | [] => .null
  | v :: vs => .pair v (ofList vs)

def complexText (re im : Float) : String :=
  Decimal.plain.float re ++ (if im < 0.0 then "" else "+") ++ Decimal.plain.float im ++ "i"

def satisfies : Value → Contract → Bool
  | .bool _, .boolean => true
  | .bool _, .integer => true
  | .flags _, .flags => true
  | .flags _, .iterable => true
  | .num _, .number => true
  | .num (.int _), .real => true
  | .num (.frac _), .real => true
  | .num (.float _), .real => true
  | .num (.int _), .exactInteger => true
  | .num x, .integer => x.isWhole
  | .str _, .string => true
  | .char _, .char => true
  | .pair _ _, .pair => true
  | .pair _ _, .iterable => true
  | .null, .iterable => true
  | _, _ => false

def isExact : Value → Bool
  | .num (.int _) => true
  | .num (.frac _) => true
  | .bool _ => true
  | _ => false

def number? : Value → Option Number
  | .num x => some x
  | .bool b => some (.int (if b then 1 else 0))
  | _ => Option.none

def procText (p : Prim) : String := "#<procedure:" ++ p.name ++ ">"

mutual

def text : Value → Except Fault String
  | .none => .ok "None"
  | .bool b => .ok (if b then "True" else "False")
  | .num x => x.text
  | .char c => .ok c.toString
  | .str s => .ok s
  | .null => .ok "'()"
  | .pair a d => do return "(" ++ (← a.text) ++ (← d.tailText)
  | .flags xs => .ok xs.words
  | .proc p => .ok (procText p)

def tailText : Value → Except Fault String
  | .null => .ok ")"
  | .pair a d => do return " " ++ (← a.text) ++ (← d.tailText)
  | .none => .ok " . None)"
  | .bool b => .ok (if b then " . True)" else " . False)")
  | .num x => do return " . " ++ (← x.text) ++ ")"
  | .char c => .ok (" . " ++ c.toString ++ ")")
  | .str s => .ok (" . " ++ s ++ ")")
  | .flags xs => .ok (" . " ++ xs.words ++ ")")
  | .proc p => .ok (" . " ++ procText p ++ ")")

end

def charText (c : Char) : String :=
  "#\\" ++ (if c = ' ' then "space" else if c = '\n' then "newline" else if c = '\t' then "tab"
    else c.toString)

def display (v : Value) : Except Fault String :=
  match v with
  | .none => .ok ""
  | .bool b => .ok (if b then "#t\n" else "#f\n")
  | .num (.complex re im) => .ok (complexText re im ++ "\n")
  | .num (.frac q) => do
    return (← Number.intText q.num) ++ "/" ++ (← Number.intText q.den) ++ "\n"
  | .num x => do return (← x.text) ++ "\n"
  | .flags xs => .ok xs.script
  | .str s => .ok ("\"" ++ s ++ "\"\n")
  | .char c => .ok (charText c ++ "\n")
  | v => do return (← v.text) ++ "\n"

/-- What a comparison yields: with flags on one side it is made tick by tick. -/
inductive Verdict : Type
  | bool : Bool → Verdict
  | flags : Flags → Verdict
  deriving DecidableEq, Repr

def Verdict.toValue : Verdict → Value
  | .bool b => .bool b
  | .flags xs => .flags xs

def Verdict.holds : Verdict → Except Fault Bool
  | .bool b => .ok b
  | .flags [] => .ok false
  | .flags [b] => .ok b
  | .flags _ => .error .badValue

def eachTick (xs : Flags) (v : Value) : Verdict :=
  match v.number? with
  | some n => .flags (xs.map fun b => Number.eqv (.int (if b then 1 else 0)) n)
  | Option.none => .flags (xs.map fun _ => false)

def tickwise (xs ys : Flags) : Except Fault Verdict :=
  if xs.length = ys.length then .ok (.flags (List.zipWith (· == ·) xs ys))
  else
    match xs, ys with
    | [x], ys => .ok (.flags (ys.map (x == ·)))
    | xs, [y] => .ok (.flags (xs.map (· == y)))
    | _, _ => .error .badValue

def same : Value → Value → Except Fault Verdict
  | .pair a d, .pair a' d' => do
    let v ← same a a'
    if ← v.holds then same d d' else return v
  | .pair _ _, _ => .ok (.bool false)
  | .flags xs, .flags ys => tickwise xs ys
  | .flags xs, v => .ok (eachTick xs v)
  | .char a, .char b => .ok (.bool (a == b))
  | .char _, _ => .ok (.bool false)
  | .null, .null => .ok (.bool true)
  | .null, _ => .ok (.bool false)
  | v, .flags ys => .ok (eachTick ys v)
  | .none, .none => .ok (.bool true)
  | .str a, .str b => .ok (.bool (a == b))
  | .proc a, .proc b => .ok (.bool (a == b))
  | v, w =>
    match v.number?, w.number? with
    | some a, some b => .ok (.bool (a.eqv b))
    | _, _ => .ok (.bool false)

def isFloat : Value → Bool
  | .num (.float _) => true
  | _ => false

/-- Equality as scripts ask for it: flags agree if all their ticks do, and a binary64 number
equals no number of another kind. -/
def equal (a b : Value) : Except Fault Value :=
  match a, b with
  | .flags xs, .flags ys => .ok (.bool (xs == ys))
  | a, b =>
    if a.isFloat != b.isFloat then .ok (.bool false) else do return (← same a b).toValue

def isList : Value → Bool
  | .null => true
  | .pair _ d => d.isList
  | _ => false

def isNull : Value → Bool
  | .null => true
  | _ => false

def length? : Value → Option Nat
  | .null => some 0
  | .pair _ d => d.length?.map (· + 1)
  | _ => Option.none

def naming (i : Int) (complaint : Int → Error) : Fault :=
  if Number.isWritable i then .script (complaint i) else .refused .digitLimit

def item (a d : Value) : Nat → Except Fault Value
  | 0 => .ok a
  | k + 1 =>
    match d with
    | .null => .error (naming k .listIndex)
    | .pair a' d' => item a' d' k
    | _ => .error (.script .notList)

def notProcedure : Value → Except Fault Fault
  | .num (.int i) => .ok (naming i fun i => .notProcedure (toString i))
  | v => do return .script (.notProcedure (← v.text))

def exitCode : Value → ExitCode
  | .none => .none
  | .bool b => .flag b
  | .num (.int i) => .int i
  | .num (.frac q) => .frac q
  | .num (.float x) => .float x
  | .num (.complex re im) => .complex re im
  | .char c => .char c
  | .str s => .text s
  | .flags xs => .flags xs
  | _ => .other

end Value

end Jumpcut.Script
