import Jumpcut.Number.Basic

/-!
Tokens of edit scripts and how a text is cut into them.

`Token.scan` yields the tokens up to the first fault, so a reader that stops early never meets a
fault that lies further on.
-/
namespace Jumpcut.Script

inductive Bracket : Type
  | round | square | curly
  deriving DecidableEq, Repr

def Bracket.opening : Bracket → Char
  | .round => '('
  | .square => '['
  | .curly => '\x7b'

def Bracket.closing : Bracket → Char
  | .round => ')'
  | .square => ']'
  | .curly => '\x7d'

inductive Token : Type
  | ident : String → Token
  | num : Number → Token
  | bool : Bool → Token
  | str : String → Token
  | method : String → Token
  | seconds : Number → Token
  | char : Char → Token
  | opener : Bracket → Token
  | closer : Bracket → Token

def methods : List String := ["audio", "motion", "pixeldiff", "random", "none", "all"]

def secondUnits : List String := ["s", "sec", "secs", "second", "seconds"]

namespace Token

def isBlank (c : Char) : Bool := " \t\n\r\x0b\x0c".toList.contains c

def isPlain (c : Char) : Bool := !isBlank c && !"()[]\x7b\x7d\";".toList.contains c

def isNumeric (c : Char) : Bool := "+-0123456789./".toList.contains c

def startsNumber (c : Char) : Bool := "0123456789.".toList.contains c

def bracket? (c : Char) : Option Token :=
  match [Bracket.round, .square, .curly].find? (fun b => b.opening = c) with
  | some b => some (.opener b)
  | none =>
    match [Bracket.round, .square, .curly].find? (fun b => b.closing = c) with
    | some b => some (.closer b)
    | none => none

def skip : (inComment : Bool) → List Char → List Char
  | _, [] => []
  | false, c :: cs =>
    if isBlank c then skip false cs else if c = ';' then skip true cs else c :: cs
  | true, c :: cs => if c = '\n' then skip false cs else skip true cs

def literal : List Char → Except Fault (List Char × List Char)
  | [] => .ok ([], [])
  | '"' :: cs => .ok ([], cs)
  | ['\\'] => .error .wrongKind
  | '\\' :: c :: cs =>
    match c with
    | 'n' => (literal cs).map fun r => ('\n' :: r.1, r.2)
    | 't' => (literal cs).map fun r => ('\t' :: r.1, r.2)
    | '"' => (literal cs).map fun r => ('"' :: r.1, r.2)
    | '\\' => (literal cs).map fun r => ('\\' :: r.1, r.2)
    | _ => .error (.script (.badEscape c))
  | c :: cs => (literal cs).map fun r => (c :: r.1, r.2)

def ofNumeral (body unit : String) : Except Fault Token :=
  let name := Token.ident (body ++ unit)
  if unit = "i" then
    match Decimal.complex? 'j' (body ++ "j") with
    | some (re, im) => .ok (.num (.complex re im))
    | none => .ok name
  else if unit ≠ "" ∧ unit ∉ secondUnits then .ok name
  else
    let wrap : Number → Token := if unit = "" then .num else .seconds
    if body.toList.contains '/' then
      match Decimal.fraction? body with
      | .ok q => .ok (wrap (Number.simplify q))
      | .error .malformed => .ok name
      | .error .zeroDenominator => .error .divisionByZero
    else if body.toList.contains '.' then
      match Decimal.float? body with
      | some x => .ok (wrap (.float x))
      | none => .ok name
    else
      match Decimal.int? body with
      | some i => .ok (wrap (.int i))
      | none => .ok name

def numeral (c : Char) (cs : List Char) : Except Fault (Token × List Char) :=
  let rest := cs.dropWhile isNumeric
  let body := String.ofList (c :: cs.takeWhile isNumeric)
  (ofNumeral body (String.ofList (rest.takeWhile isPlain))).map (·, rest.dropWhile isPlain)

def hash : List Char → Except Fault (Token × List Char)
  | '\\' :: c :: cs => .ok (.char c, cs)
  | ['\\'] => .error (.script .charExpected)
  | cs =>
    let word := String.ofList (cs.takeWhile isPlain)
    let rest := cs.dropWhile isPlain
    if word = "t" ∨ word = "true" then .ok (.bool true, rest)
    else if word = "f" ∨ word = "false" then .ok (.bool false, rest)
    else .error (.script (.unknownHash word))

def quote : List Char → Except Fault (Token × List Char)
  | '(' :: ')' :: cs => .ok (.ident "null", cs)
  | '(' :: cs =>
    let inside := cs.takeWhile (· ≠ ')')
    let close := if inside.length < cs.length then [')'] else []
    .error (.script (.unknownQuote (String.ofList ('(' :: inside ++ close))))
  | _ => .error (.script (.unknownQuote ""))

def word (c : Char) (cs : List Char) : Except Fault (Token × List Char) :=
  let name := c :: cs.takeWhile isPlain
  let text := String.ofList name
  let rest := cs.dropWhile isPlain
  if name.any fun c => "'`|\\".toList.contains c then .error (.script (.illegalSymbol text))
  else if methods.any fun m => text == m || (m ++ ":").toList.isPrefixOf name then
    .ok (.method text, rest)
  else .ok (.ident text, rest)

def startingWith (c : Char) (cs : List Char) : Except Fault (Token × List Char) :=
  if c = '"' then (literal cs).map fun r => (.str (String.ofList r.1), r.2)
  else
    match bracket? c with
    | some t => .ok (t, cs)
    | none =>
      if (c = '+' ∨ c = '-') ∧ (cs.head?.any startsNumber) then numeral c cs
      else if startsNumber c then numeral c cs
      else if c = '#' then hash cs
      else if c = '\'' then quote cs
      else word c cs

def next? (cs : List Char) : Except Fault (Option (Token × List Char)) :=
  match skip false cs with
  | [] => .ok none
  | c :: cs' => (startingWith c cs').map some

theorem length_skip_le (b : Bool) (cs : List Char) : (skip b cs).length ≤ cs.length := by
  induction cs generalizing b with
  | nil => cases b <;> simp [skip]
  | cons c cs ih =>
    have h₁ := ih true
    have h₂ := ih false
    cases b <;> simp only [skip] <;> split <;> try split
    all_goals simp only [List.length_cons]; omega

theorem length_dropWhile_le (p : Char → Bool) (cs : List Char) :
    (cs.dropWhile p).length ≤ cs.length :=
  (List.dropWhile_sublist p).length_le

theorem length_of_literal {cs : List Char} {r : List Char × List Char} (h : literal cs = .ok r) :
    r.2.length ≤ cs.length := by
  induction cs using literal.induct generalizing r with
  | case1 => cases h; simp
  | case2 cs => cases h; simp
  | case3 => cases h
  | case4 cs ih | case5 cs ih | case6 cs ih | case7 cs ih =>
    simp only [literal] at h
    cases hl : literal cs with
    | error e => rw [hl] at h; cases h
    | ok q =>
      rw [hl] at h
      cases h
      have := ih hl
      simp only [List.length_cons]
      omega
  | case8 c cs =>
    simp [literal] at h
  | case9 c cs h₁ h₂ h₃ ih =>
    rw [literal] at h
    · cases hl : literal cs with
      | error e => rw [hl] at h; cases h
      | ok q =>
        rw [hl] at h
        cases h
        have := ih hl
        simp only [List.length_cons]
        omega
    all_goals assumption

private theorem map_ok {α β : Type} {x : Except Fault α} {f : α → β} {b : β}
    (h : x.map f = .ok b) : ∃ a, x = .ok a ∧ f a = b := by
  cases x with
  | error e => cases h
  | ok a => exact ⟨a, rfl, Except.ok.inj h⟩

theorem length_of_startingWith {c : Char} {cs : List Char} {r : Token × List Char}
    (h : startingWith c cs = .ok r) : r.2.length ≤ cs.length := by
  have hn : ∀ {r}, numeral c cs = .ok r → r.2.length ≤ cs.length := by
    intro r hr
    obtain ⟨t, -, rfl⟩ := map_ok hr
    exact Nat.le_trans (length_dropWhile_le _ _) (length_dropWhile_le _ _)
  rw [startingWith] at h
  split at h
  · obtain ⟨q, hq, rfl⟩ := map_ok h
    exact length_of_literal hq
  · split at h
    · cases h; exact Nat.le_refl _
    · split at h
      · exact hn h
      · split at h
        · exact hn h
        · split at h
          · rw [hash.eq_def] at h
            split at h
            · cases h; simp only [List.length_cons]; omega
            · cases h
            · simp only at h
              split at h
              · cases h; exact length_dropWhile_le _ _
              · split at h
                · cases h; exact length_dropWhile_le _ _
                · cases h
          · split at h
            · rw [quote.eq_def] at h
              split at h
              · cases h; simp only [List.length_cons]; omega
              · cases h
              · cases h
            · simp only [word] at h
              split at h
              · cases h
              · split at h
                · cases h; exact length_dropWhile_le _ _
                · cases h; exact length_dropWhile_le _ _

theorem length_of_next? {cs : List Char} {t : Token} {rest : List Char}
    (h : next? cs = .ok (some (t, rest))) : rest.length < cs.length := by
  rw [next?] at h
  have hs := length_skip_le false cs
  split at h
  · cases h
  · next c cs' hc =>
    obtain ⟨q, hq, hr⟩ := map_ok h
    cases hr
    have := length_of_startingWith hq
    rw [hc, List.length_cons] at hs
    simp only at this
    omega

end Token

structure Scan where
  tokens : List Token
  stop : Option Fault

def scan (cs : List Char) : Scan :=
  match _h : Token.next? cs with
  | .error e => ⟨[], some e⟩
  | .ok none => ⟨[], none⟩
  | .ok (some (t, rest)) =>
    let r := scan rest
    ⟨t :: r.tokens, r.stop⟩
termination_by cs.length
decreasing_by exact Token.length_of_next? _h

end Jumpcut.Script
