import Jumpcut.Number.Power

namespace Jumpcut

structure ClockTime where
  (hours minutes : Int)
  seconds : Float

namespace ClockTime

def ofSeconds (secs : Number) : Except Fault ClockTime := do
  let (m, s) ← secs.divMod 60
  let (h, m) ← m.divMod 60
  let s ← s.toFloat
  let m ← m.trunc
  return ⟨← h.trunc, m, s⟩

def twoDigits (n : Int) : String := Decimal.zeroPad 2 (toString n)

def secondsText (places : Nat) (t : ClockTime) : String :=
  Decimal.zeroPad (if places = 0 then 2 else places + 3) (Decimal.fixed places t.seconds)

def minutesText (t : ClockTime) : String := twoDigits t.minutes

end ClockTime

inductive TimeFormat : Type
  | webvtt : TimeFormat
  | movText : TimeFormat
  | standard : TimeFormat
  | ass : TimeFormat
  | rass : TimeFormat
  deriving DecidableEq, Repr

namespace TimeFormat

def named? (s : String) : Option TimeFormat :=
  if s = "webvtt" then some .webvtt
  else if s = "mov_text" then some .movText
  else if s = "standard" then some .standard
  else if s = "ass" then some .ass
  else if s = "rass" then some .rass
  else none

def comma (s : String) : String := String.ofList (s.toList.map fun c => if c = '.' then ',' else c)

def unsigned (f : TimeFormat) (t : ClockTime) : String :=
  let h := ClockTime.twoDigits t.hours
  let m := t.minutesText
  match f with
  | .webvtt =>
    if t.hours = 0 then m ++ ":" ++ t.secondsText 3 else h ++ ":" ++ m ++ ":" ++ t.secondsText 3
  | .movText => h ++ ":" ++ m ++ ":" ++ comma (t.secondsText 3)
  | .standard => h ++ ":" ++ m ++ ":" ++ t.secondsText 3
  | .ass => toString t.hours ++ ":" ++ m ++ ":" ++ t.secondsText 2
  | .rass => toString t.hours ++ ":" ++ m ++ ":" ++ t.secondsText 0

def text (f : TimeFormat) (secs : Number) : Except Fault String := do
  if secs.lt 0 then return "-" ++ f.unsigned (← ClockTime.ofSeconds secs.neg)
  else return f.unsigned (← ClockTime.ofSeconds secs)

end TimeFormat

def timecode (secs : Number) (format : String) : Except Fault String := do
  let neg := secs.lt 0
  let t ← ClockTime.ofSeconds (if neg then secs.neg else secs)
  match TimeFormat.named? format with
  | some f =>
    if Number.isWritable t.hours then return (if neg then "-" else "") ++ f.unsigned t
    else .error .badValue
  | none => .error (.refused .timecodeFormat)

namespace Duration

def roundedQuotient (x : Number) (n : Int) : Except Fault Number := do
  match ← x.div (.int n) with
  | .float q => return .float (Decimal.roundTo 1 q)
  | q => return q

/-- A duration in hours, minutes or seconds, with at most one decimal place. Sixty hours or more
are divided by sixty once more and called minutes. -/
def words (secs : Number) : Except Fault String := do
  let mut x := secs
  let mut units := "seconds"
  if Number.le 3600 x then
    x ← roundedQuotient x 3600
    if x.isWhole then x := .int (← x.round)
    units := "hours"
  if Number.le 60 x then
    x ← roundedQuotient x 60
    if Number.le 10 x || x.isWhole then x := .int (← x.round)
    units := "minutes"
  return (← x.text) ++ " " ++ units

end Duration

theorem natAbs_fmod_lt (a : Int) {b : Int} (h : b ≠ 0) : (a.fmod b).natAbs < b.natAbs := by
  rcases Int.lt_or_gt_of_ne h with hb | hb
  · rw [show a.fmod b = -((-a).fmod (-b)) by rw [Int.neg_fmod_neg]; omega,
      Int.fmod_eq_emod_of_nonneg _ (by omega)]
    have h₁ := Int.emod_nonneg (-a) (b := -b) (by omega)
    have h₂ := Int.emod_lt_of_pos (-a) (b := -b) (by omega)
    omega
  · rw [Int.fmod_eq_emod_of_nonneg _ (by omega)]
    have h₁ := Int.emod_nonneg a (b := b) (by omega)
    have h₂ := Int.emod_lt_of_pos a (b := b) (by omega)
    omega

def floorGcd (a b : Int) : Int :=
  if b = 0 then a else floorGcd b (a.fmod b)
termination_by b.natAbs
decreasing_by exact natAbs_fmod_lt a ‹_›

def aspectRatio (width height : Int) : Int × Int :=
  if height = 0 then (0, 0)
  else
    let g := floorGcd width height
    (width.fdiv g, height.fdiv g)

end Jumpcut
