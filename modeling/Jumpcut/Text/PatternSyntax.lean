import Jumpcut.Fault
import Jumpcut.Text.Pattern

namespace Jumpcut.Pattern

structure Flaw where
  reason : String
  pos : Nat
  deriving DecidableEq, Repr

def Flaw.message (f : Flaw) (text : String) : String :=
  let cs := text.toList
  let place :=
    if cs.contains '\n' then
      let before := cs.take f.pos
      " (line " ++ toString (before.count '\n' + 1) ++ ", column " ++
        toString ((before.reverse.takeWhile (· ≠ '\n')).length + 1) ++ ")"
    else ""
  f.reason ++ " at position " ++ toString f.pos ++ place

structure Written where
  pattern : Pattern
  names : List (String × Nat)

structure Reading where
  (total groups : Nat)
  names : List (String × Nat)

abbrev Reader := EStateM Flaw Reading

def posOf (rest : List Char) : Reader Nat := do return (← get).total - rest.length

def flawAt {α : Type} (reason : String) (rest : List Char) : Reader α := do
  throw ⟨reason, ← posOf rest⟩

def classOf? : Char → Option CharItem
  | 'd' => some .digit
  | 'D' => some .notDigit
  | 's' => some .space
  | 'S' => some .notSpace
  | 'w' => some .word
  | 'W' => some .notWord
  | _ => none

def escaped (c : Char) : Char :=
  match c with
  | 'n' => '\n'
  | 't' => '\t'
  | 'r' => '\r'
  | 'f' => '\x0c'
  | 'v' => '\x0b'
  | 'a' => '\x07'
  | c => c

def escapeItem (c : Char) : CharItem := (classOf? c).getD (.single (escaped c))

def items (start : List Char) : (fuel : Nat) → (first : Bool) → List Char →
    Reader (List CharItem × List Char)
  | 0, _, _ => flawAt "unterminated character set" start
  | _ + 1, _, [] => flawAt "unterminated character set" start
  | fuel + 1, first, c :: cs =>
    if c = ']' ∧ !first then return ([], cs)
    else do
      let (item, rest) ←
        match c, cs with
        | '\\', d :: rest => pure (escapeItem d, rest)
        | '\\', [] => flawAt "bad escape (end of pattern)" (c :: cs)
        | _, _ => pure (.single c, cs)
      match item, rest with
      | .single lo, '-' :: hi :: rest' =>
        if hi = ']' then do
          let (more, rest) ← items start fuel false rest
          return (item :: more, rest)
        else do
          let (hi, rest'') ←
            match hi, rest' with
            | '\\', d :: rest => pure (escaped d, rest)
            | _, _ => pure (hi, rest')
          if hi < lo then
            flawAt ("bad character range " ++ lo.toString ++ "-" ++ hi.toString) (c :: cs)
          else do
            let (more, rest) ← items start fuel false rest''
            return (.range lo hi :: more, rest)
      | _, _ => do
        let (more, rest) ← items start fuel false rest
        return (item :: more, rest)

def bounds? (cs : List Char) : Option (Nat × Option Nat × List Char) :=
  let lo := cs.takeWhile Char.isDigit
  let rest := cs.dropWhile Char.isDigit
  let num (ds : List Char) : Nat := Text.ofDigits (ds.map fun c => c.toNat - 48)
  match rest with
  | ',' :: rest =>
    let hi := rest.takeWhile Char.isDigit
    match rest.dropWhile Char.isDigit with
    | '\x7d' :: rest => some (num lo, if hi.isEmpty then none else some (num hi), rest)
    | _ => none
  | '\x7d' :: rest => if lo.isEmpty then none else some (num lo, some (num lo), rest)
  | _ => none

def repetition? : List Char → Option (Nat × Option Nat × List Char)
  | '*' :: cs => some (0, none, cs)
  | '+' :: cs => some (1, none, cs)
  | '?' :: cs => some (0, some 1, cs)
  | '\x7b' :: cs => bounds? cs
  | _ => none

def quantify (p : Option Pattern) (here : List Char) : Reader (Pattern × List Char) := do
  match repetition? here with
  | none => return (p.getD .empty, here)
  | some (lo, hi, rest) =>
    match p with
    | none => flawAt "nothing to repeat" here
    | some p =>
      let (greedy, rest) := match rest with
        | '?' :: rest => (false, rest)
        | '+' :: rest => (true, rest)
        | rest => (true, rest)
      if (repetition? rest).isSome then flawAt "multiple repeat" rest
      else return (.many greedy lo hi p, rest)

def newGroup : Reader Nat := do
  let r ← get
  set { r with groups := r.groups + 1 }
  return r.groups + 1

mutual

def alternatives (multi : Bool) : (fuel : Nat) → List Char → Reader (Pattern × List Char)
  | 0, cs => return (.empty, cs)
  | fuel + 1, cs => do
    let (p, rest) ← branch multi fuel .empty cs
    match rest with
    | '|' :: rest => do
      let (q, rest) ← alternatives multi fuel rest
      return (.alt p q, rest)
    | rest => return (p, rest)

def branch (multi : Bool) : (fuel : Nat) → Pattern → List Char → Reader (Pattern × List Char)
  | 0, done, cs => return (done, cs)
  | _ + 1, done, [] => return (done, [])
  | fuel + 1, done, c :: cs =>
    if c = '|' ∨ c = ')' then return (done, c :: cs)
    else do
      let (p, rest) ← onePart multi fuel c cs
      let (p, rest) ← quantify p rest
      branch multi fuel (.seq done p) rest

def onePart (multi : Bool) : (fuel : Nat) → Char → List Char → Reader (Option Pattern × List Char)
  | 0, _, cs => return (none, cs)
  | fuel + 1, c, cs =>
    match c, cs with
    | '.', cs => return (some any, cs)
    | '^', cs => do
      if (repetition? cs).isSome then flawAt "nothing to repeat" cs
      else return (some (.front multi), cs)
    | '$', cs => do
      if (repetition? cs).isSome then flawAt "nothing to repeat" cs
      else return (some (.back multi), cs)
    | '\\', d :: cs => return (some (oneOf [escapeItem d]), cs)
    | '\\', [] => flawAt "bad escape (end of pattern)" (c :: cs)
    | '[', '^' :: cs => do
      let (is, rest) ← items (c :: '^' :: cs) fuel true cs
      return (some (.one ⟨true, is⟩), rest)
    | '[', cs => do
      let (is, rest) ← items (c :: cs) fuel true cs
      return (some (oneOf is), rest)
    | '(', '?' :: ':' :: cs' => do
      let (p, rest) ← alternatives multi fuel cs'
      match rest with
      | ')' :: rest => return (some p, rest)
      | _ => flawAt "missing ), unterminated subpattern" (c :: cs)
    | '(', '?' :: 'P' :: '<' :: cs' => do
      let name := cs'.takeWhile (· ≠ '>')
      let n ← newGroup
      modify fun r => { r with names := (String.ofList name, n) :: r.names }
      let (p, rest) ← alternatives multi fuel (cs'.drop (name.length + 1))
      match rest with
      | ')' :: rest => return (some (.group n p), rest)
      | _ => flawAt "missing ), unterminated subpattern" (c :: cs)
    | '(', cs => do
      let n ← newGroup
      let (p, rest) ← alternatives multi fuel cs
      match rest with
      | ')' :: rest => return (some (.group n p), rest)
      | _ => flawAt "missing ), unterminated subpattern" (c :: cs)
    | '\x7b', cs =>
      if (bounds? cs).isSome then flawAt "nothing to repeat" (c :: cs)
      else return (some (lit c), cs)
    | c, cs =>
      if c = '*' ∨ c = '+' ∨ c = '?' then flawAt "nothing to repeat" (c :: cs)
      else return (some (lit c), cs)

end

def parse (multi : Bool) (text : String) : Except Flaw Written :=
  let cs := text.toList
  let act : Reader Pattern := do
    let (p, rest) ← alternatives multi (4 * cs.length + 4) cs
    match rest with
    | [] => return p
    | rest => flawAt "unbalanced parenthesis" rest
  match act ⟨cs.length, 0, []⟩ with
  | .ok p r => .ok ⟨p, r.names⟩
  | .error e _ => .error e

def part (pattern name text : String) : Except Fault (Option String) := do
  let w ← (parse false pattern).mapError fun _ => .badValue
  match w.pattern.search false text.toList with
  | none => return none
  | some m =>
    match w.names.lookup name with
    | none => throw .noKey
    | some n => return (m.group? n).map fun s => String.ofList (s.of text.toList)

end Jumpcut.Pattern
