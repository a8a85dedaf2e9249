import Jumpcut.Script.Token

/-!
Expressions of edit scripts, and the reader that builds them from tokens.

The reader keeps a stack of open applications. A closing bracket of the wrong kind does not end
an application: it begins a nameless one, which ends before the next closing bracket.
-/
namespace Jumpcut.Script

inductive Expr : Type
  | var : String → Expr
  | num : Number → Expr
  | bool : Bool → Expr
  | str : String → Expr
  | char : Char → Expr
  | method : String → Expr
  | apply : Expr → List Expr → Expr

namespace Expr

mutual

def describe : Expr → Except Fault String
  | .var name => .ok ("(Var " ++ name ++ ")")
  | .num x => do return "(num " ++ (← x.text) ++ ")"
  | .bool b => .ok (if b then "(bool #t)" else "(bool #f)")
  | .str s => .ok ("(str " ++ s ++ ")")
  | .char c => .ok ("(char " ++ c.toString ++ ")")
  | .method s => .ok ("(boolarr " ++ s ++ ")")
  | .apply op args => do return "(ManyOp " ++ (← op.describe) ++ (← describeAll args) ++ ")"

def describeAll : List Expr → Except Fault String
  | [] => .ok ""
  | e :: es => do return " " ++ (← e.describe) ++ (← describeAll es)

end

end Expr

def inTicks (x : Number) : Expr :=
  .apply (.var "exact-round") [.apply (.var "*") [.num x, .var "timebase"]]

def Token.leaf? : Token → Option Expr
  | .ident s => some (.var s)
  | .num x => some (.num x)
  | .bool b => some (.bool b)
  | .str s => some (.str s)
  | .method s => some (.method s)
  | .seconds x => some (inTicks x)
  | .char c => some (.char c)
  | .opener _ => none
  | .closer _ => none

inductive Frame.Kind : Type
  | top : Frame.Kind
  | bracket : Bracket → Frame.Kind
  | stray : Frame.Kind
  deriving DecidableEq, Repr

structure Frame where
  kind : Frame.Kind
  items : List Expr

def Frame.push (f : Frame) (e : Expr) : Frame := { f with items := e :: f.items }

def Frame.close (f : Frame) : Except Fault Expr :=
  match f.items.reverse with
  | [] => .error .outOfRange
  | op :: args => .ok (.apply op args)

namespace Reader

def push (e : Expr) : List Frame → List Frame
  | [] => []
  | f :: fs => f.push e :: fs

def endStray : List Frame → Except Fault (List Frame)
  | f :: g :: fs =>
    if f.kind = .stray then (f.close).map fun e => g.push e :: fs else .ok (f :: g :: fs)
  | fs => .ok fs

/-- Reads tokens until the end or a closing bracket that nothing has opened, and hands on the
tokens from there. `stop` is the fault that lies behind the last token. -/
def run (stop : Option Fault) : List Token → List Frame → Except Fault (List Expr × List Token)
  | [], fs =>
    match stop with
    | some e => .error e
    | none => do
      match ← endStray fs with
      | [] => return ([], [])
      | f :: _ =>
        match f.kind with
        | .bracket _ => .error (.script .unexpectedEnd)
        | _ => return (f.items.reverse, [])
  | t :: rest, fs =>
    match t with
    | .opener b => run stop rest (⟨.bracket b, []⟩ :: fs)
    | .closer b => do
      match ← endStray fs with
      | [] => return ([], .closer b :: rest)
      | f :: below =>
        match f.kind with
        | .bracket b' =>
          if b = b' then
            match rest, stop with
            | [], some e => .error e
            | _, _ => do
              let e ← f.close
              run stop rest (push e below)
          else run stop rest (⟨.stray, []⟩ :: f :: below)
        | _ => return (f.items.reverse, .closer b :: rest)
    | t =>
      match t.leaf? with
      | some e => run stop rest (push e fs)
      | none => run stop rest fs

end Reader

def Scan.parse (s : Scan) : Except Fault (List Expr × List Token) :=
  Reader.run s.stop s.tokens [⟨.top, []⟩]

def Scan.read (s : Scan) : Except Fault (List Expr) := s.parse.map Prod.fst

def read (text : String) : Except Fault (List Expr) := (scan text.toList).read

def describe (text : String) : Except Fault String := do
  let es ← read text
  let body ← Expr.describeAll es
  if text.isEmpty then .error .outOfRange else return "\x7bCompound" ++ body ++ "\x7d"

end Jumpcut.Script
