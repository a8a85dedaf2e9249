import Jumpcut.Number.Power

namespace Jumpcut

open Number Decimal

inductive Length : Type
  | ticks : Int → Length
  | seconds : String → Length
  deriving DecidableEq, Repr

namespace Setting

inductive Raw : Type
  | text : String → Raw
  | number : Number → Raw

def Raw.display : Raw → String
  | .text s => s
  | .number x => x.display

def Raw.isWritable : Raw → Bool
  | .text _ => true
  | .number x => x.text.isOk

def Raw.int (n : Int) : Raw := .number (.int n)

instance : Coe String Raw := ⟨.text⟩

def refuse {α : Type} (e : Error) : Except Fault α := .error (.setting e)

def isNumberChar (c : Char) : Bool := "0123456789_ .-".toList.contains c

def split : Raw → Except Fault (Number × String)
  | .number x => .ok (x, "")
  | .text s =>
    match float? (String.ofList (s.toList.takeWhile isNumberChar)) with
    | some x => .ok (.float x, String.ofList (s.toList.dropWhile isNumberChar))
    | none => refuse (.invalidNumber s)

def checkUnit (unit : String) (allowed : List String) : Except Fault Unit :=
  if unit ∈ allowed then .ok () else refuse (.unknownUnit unit)

def natural (val : Raw) : Except Fault Int := do
  let (num, unit) ← split val
  if unit ≠ "" then refuse (.naturalUnit val.display)
  else if num.lt 0 then refuse (.naturalNegative val.display)
  else if !num.isWhole then refuse (.naturalFraction val.display)
  else num.trunc

def parts (sep : Char) (s : String) : List String := (s.toList.splitOn sep).map String.ofList

def quotient (val : String) : Except Fault Number :=
  match parts '/' val with
  | [n, d] =>
    match int? n, int? d with
    | some n, some d =>
      if d = 0 then refuse (.zeroDivisor val) else div (.int n) (.int d)
    | _, _ => refuse (.integerParts val)
  | _ => refuse (.oneDivisor val)

def number (val : Raw) : Except Fault Number :=
  let plain : Except Fault Number := do
    let (num, unit) ← split val
    if unit = "%" then num.div 100
    else do
      checkUnit unit [""]
      return num
  match val with
  | .text s => if s.toList.contains '/' then quotient s else plain
  | .number _ => plain

def cutSpeed : Number := .float 99999.0

def speed (val : Raw) : Except Fault Number := do
  let s ← number val
  if s.le 0 || lt 99999 s then return cutSpeed else return s

def volume (val : Raw) : Except Fault Raw := do
  let (_, unit) ← split val
  if unit = "dB" then return val
  else return .number (← number val)

def source : Raw → Except Fault Raw
  | .text s =>
    match int? s with
    | some i => .ok (if 0 < i then .number (.int i) else s)
    | none => .ok s
  | .number x =>
    match x.trunc with
    | .ok i => .ok (.number (if 0 < i then .int i else x))
    | .error .badValue => .ok (.number x)
    | .error e => .error e

def threshold (val : Raw) : Except Fault Number := do
  let num ← number val
  if lt 1 num || num.lt 0 then refuse (.thresholdRange val.display) else return num

def levelThreshold (val : Raw) : Except Fault Number := do
  let (num, unit) ← split val
  if unit = "dB" then
    if lt 0 num then refuse .positiveDecibels
    else pow 10 (← num.div 20)
  else threshold val

def fraction (s : String) : Except Fault Rat :=
  match fraction? s with
  | .ok q => .ok q
  | .error .malformed => .error .badValue
  | .error .zeroDenominator => .error .divisionByZero

def frameRate : Raw → Except Fault Rat
  | .text s =>
    if s = "ntsc" then .ok (mkRat 30000 1001)
    else if s = "ntsc_film" then .ok (mkRat 24000 1001)
    else if s = "pal" then .ok 25
    else if s = "film" then .ok 24
    else fraction s
  | .number x =>
    match x.toRat?, x.trunc with
    | some q, _ => .ok q
    | none, .error e => .error e
    | none, .ok _ => .error .wrongKind

def sampleRate (val : Raw) : Except Fault Int := do
  let (num, unit) ← split val
  if unit = "kHz" ∨ unit = "KHz" then natural (.number (← num.mul 1000))
  else do
    checkUnit unit ["", "Hz"]
    natural (.number num)

def wholePart (s : String) : Except Fault Int :=
  match int? s with
  | some i => .ok i
  | none => .error .badValue

def floatPart (s : String) : Except Fault Float :=
  match float? s with
  | some x => .ok x
  | none => .error .badValue

def clock (val : String) : Except Fault Length :=
  match parts ':' val with
  | [m, s] => do
    let m ← wholePart m
    let s ← floatPart s
    return .seconds (← (← add (.int (m * 60)) (.float s)).text)
  | [h, m, s] => do
    let h ← wholePart h
    let m ← wholePart m
    let s ← floatPart s
    return .seconds (← (← add (.int (h * 3600 + m * 60)) (.float s)).text)
  | _ => refuse (.timeFormat val)

def time : Raw → Except Fault Length
  | .number _ => .error .wrongKind
  | .text val =>
    if val.toList.contains ':' then clock val
    else do
      let (num, unit) ← split val
      if unit ∈ ["s", "sec", "secs", "second", "seconds"] then return .seconds (← num.text)
      else if unit ∈ ["m", "min", "mins", "minute", "minutes"] then
        return .seconds (← (← num.mul 60).text)
      else if unit ∈ ["h", "hour", "hours"] then return .seconds (← (← num.mul 3600).text)
      else do
        checkUnit unit [""]
        if num.isWhole then return .ticks (← num.trunc) else refuse (.wholeTicks val)

def anchor (val : String) : Except Fault String :=
  if val ∈ anchors then .ok val else refuse .anchor

def margin (val : String) : Except Fault (Length × Length) :=
  match parts ',' (Text.strip val) with
  | [a] => do
    let a ← time a
    return (a, a)
  | [a, b] => do return (← time a, ← time b)
  | _ => refuse .marginCount

def commaParts (name val : String) (n : Nat) : Except Fault (List String) :=
  let vals := parts ',' (Text.strip val)
  if vals.length < n then refuse (.tooFew name)
  else if n < vals.length then refuse (.tooMany name)
  else .ok vals

def timeRange (val : String) : Except Fault (List String) := commaParts "time_range" val 2

def speedRange (val : String) : Except Fault (Number × String × String) := do
  match ← commaParts "speed_range" val 3 with
  | [s, a, b] => return (← number s, a, b)
  | _ => .error .outOfRange

def align (val : String) : Except Fault String :=
  if val ∈ ["left", "center", "right"] then .ok val else refuse .align

inductive StreamChoice : Type
  | all : StreamChoice
  | one : Int → StreamChoice
  deriving DecidableEq, Repr

def stream : Raw → Except Fault StreamChoice
  | .text "all" => .ok .all
  | val => do return .one (← natural val)

def resolution (val : String) : Except Fault (Int × Int) :=
  match parts ',' (Text.strip val) with
  | [w, h] => do return (← natural w, ← natural h)
  | _ => refuse (.resolutionCount val)

def position (val : Raw) (length : Int) : Except Fault Int := do
  let (num, unit) ← split val
  if unit = "%" then (← (← num.div 100).mul (.int length)).round
  else do
    checkUnit unit [""]
    num.round

end Setting

namespace Length

def toTicks (tb : Rat) : Length → Except Fault Int
  | .ticks n => .ok n
  | .seconds s => do (← mul (.float (← Setting.floatPart s)) (.frac tb)).trunc

def nearestTick (tb : Rat) : Length → Except Fault Int
  | .ticks n => .ok n
  | .seconds s => do (← mul (.float (← Setting.floatPart s)) (.frac tb)).round

end Length

end Jumpcut
