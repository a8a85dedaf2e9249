import Jumpcut.Fault
import Jumpcut.Wave.Sample

/-!
Wave files read from bytes. A file is a form header and a sequence of sections; the format section
comes before the sound, and sections of other kinds are skipped.
-/
namespace Jumpcut.Wave

def refuse {α : Type} (e : Error) : Except Fault α := .error (.wave e)

def peek (file : List UInt8) (pos n : Nat) : List UInt8 := (file.drop pos).take n

def reach (file : List UInt8) (pos n : Nat) : Nat := min n (file.length - pos)

def word (o : ByteOrder) (file : List UInt8) (pos w : Nat) : Except Fault Nat :=
  let bs := peek file pos w
  if bs.length = w then .ok (o.ofBytes bs) else .error .shortRead

def ascii (s : String) : List UInt8 := s.toList.map fun c => UInt8.ofNat c.toNat

def pad (size : Nat) : Nat := size % 2

structure Layout where
  (tag channels rate align depth : Nat)
  deriving DecidableEq, Repr

def pcm : Nat := 1
def ieeeFloat : Nat := 3
def extensible : Nat := 0xfffe

def guidTail : ByteOrder → List UInt8
  | .big => [0, 0, 0, 0x10, 0x80, 0, 0, 0xaa, 0, 0x38, 0x9b, 0x71]
  | .little => [0, 0, 0x10, 0, 0x80, 0, 0, 0xaa, 0, 0x38, 0x9b, 0x71]

/-- The tag inside the extension of a format section, how many bytes the extension has, and how
many of them are in the file. -/
def extensionTag (o : ByteOrder) (file : List UInt8) (pos : Nat) : Except Fault (Nat × Nat × Nat) := do
  let size ← word o file pos 2
  if size < 22 then refuse .notCompliant
  else
    let guid := (peek file (pos + 2) 22).drop 6
    let got := 2 + reach file (pos + 2) 22
    if (guidTail o).isSuffixOf guid then
      return (← word o guid 0 4, 24, got)
    else return (extensible, 24, got)

def layoutAt (o : ByteOrder) (file : List UInt8) (pos : Nat) : Except Fault (Layout × Nat) := do
  let size ← word o file pos 4
  if size < 16 then refuse .notCompliant
  else
    let fields := peek file (pos + 4) 16
    if fields.length < 16 then .error .shortRead
    else
      let tag := o.ofBytes (fields.take 2)
      let (tag, counted, got) ←
        if tag = extensible ∧ 18 ≤ size then extensionTag o file (pos + 20) else .ok (tag, 0, 0)
      if tag ≠ pcm ∧ tag ≠ ieeeFloat then refuse (.unknownTag tag)
      else
        let layout : Layout := ⟨tag, o.ofBytes (peek fields 2 2), o.ofBytes (peek fields 4 4),
          o.ofBytes (peek fields 12 2), o.ofBytes (peek fields 14 2)⟩
        let rest := reach file (pos + 20 + got) (size - (16 + counted))
        return (layout, 20 + got + rest + pad size)

def Layout.sampleFormat (l : Layout) (o : ByteOrder) (bytes : Nat) : Except Fault SampleFormat :=
  let checked (f : SampleFormat) : Except Fault SampleFormat :=
    if f.isValid then .ok f else .error .wrongKind
  if l.tag = pcm then
    if 1 ≤ l.depth ∧ l.depth ≤ 8 then .ok ⟨.unsigned, 1, o⟩
    else if l.depth ≤ 64 then checked ⟨.signed, bytes, o⟩
    else refuse (.integerDepth l.depth)
  else if l.depth = 32 ∨ l.depth = 64 then checked ⟨.float, bytes, o⟩
  else refuse (.floatDepth l.depth)

def wordsOf (o : ByteOrder) (w : Nat) : (n : Nat) → List UInt8 → List Nat
  | 0, _ => []
  | n + 1, bs => o.ofBytes (bs.take w) :: wordsOf o w n (bs.drop w)

def arrange (channels : Nat) (f : SampleFormat) (words : List Nat) : Except Fault Samples :=
  if channels ≤ 1 then .ok ⟨f, none, words⟩
  else if words.length % channels = 0 then .ok ⟨f, some channels, words⟩
  else if (words.length - 1) % channels = 0 then .ok ⟨f, some channels, words.dropLast⟩
  else .error .badValue

/-- Reads a sound section whose size stands at a position, unless `known` gives it. Also says how
far it reaches. -/
def soundAt (o : ByteOrder) (l : Layout) (known : Option Nat) (file : List UInt8) (pos : Nat) :
    Except Fault (Samples × Nat) := do
  let size ← word o file pos 4
  let size := known.getD size
  if l.channels = 0 then .error .divisionByZero
  else
    let bytes := l.align / l.channels
    if bytes = 0 then .error .divisionByZero
    else if bytes ∈ [3, 5, 6, 7] then refuse (.sampleSize bytes)
    else
      let f ← l.sampleFormat o bytes
      let n := size / bytes
      if Nat.pow 2 63 ≤ n * f.bytes then .error .tooLarge
      else if file.length < pos + 4 + n * f.bytes then .error .badValue
      else
        let words := wordsOf o f.bytes n (file.drop (pos + 4))
        return (← arrange l.channels f words, 4 + size + pad size)

def skipAt (o : ByteOrder) (file : List UInt8) (pos : Nat) : Except Fault Nat :=
  if (peek file pos 4).isEmpty then .ok 0
  else do
    let size ← word o file pos 4
    return 4 + size + pad size

structure Progress where
  layout : Option Layout
  samples : Option Samples

def sections (o : ByteOrder) (known : Option Nat) (fileEnd : Nat) (file : List UInt8)
    (pos : Nat) (done : Progress) : Except Fault Progress :=
  if fileEnd ≤ pos then .ok done
  else if _h : pos < file.length then
    let id := peek file pos 4
    if id.length < 4 ∧ (done.layout.isNone ∨ done.samples.isNone) then refuse (.partialId id)
    else if id = ascii "fmt " then
      match layoutAt o file (pos + id.length) with
      | .error e => .error e
      | .ok (l, k) =>
        sections o known fileEnd file (pos + id.length + k) { done with layout := some l }
    else if id = ascii "data" then
      match done.layout with
      | none => refuse .noFormat
      | some l =>
        match soundAt o l known file (pos + id.length) with
        | .error e => .error e
        | .ok (s, k) =>
          sections o known fileEnd file (pos + id.length + k) { done with samples := some s }
    else
      match skipAt o file (pos + id.length) with
      | .error e => .error e
      | .ok k => sections o known fileEnd file (pos + id.length + k) done
  else if done.samples.isSome then .ok done
  else refuse .endOfFile
termination_by file.length - pos
decreasing_by
  all_goals
    have : 0 < (peek file pos 4).length := by
      rw [peek, List.length_take, List.length_drop]; omega
    omega

/-- What a file's header says: the size of the sound if it is given there, the end of the file,
the byte order, and where the sections begin. -/
structure Header where
  known : Option Nat
  fileEnd : Nat
  order : ByteOrder
  begin_ : Nat

def riffHeader (o : ByteOrder) (file : List UInt8) : Except Fault Header := do
  let size ← word o file 4 4
  let form := peek file 8 4
  if form = ascii "WAVE" then return ⟨none, size + 8, o, 12⟩ else refuse (.form form)

def after : List UInt8 → List UInt8 → Bool
  | [], _ => false
  | _ :: _, [] => true
  | a :: as, b :: bs => if a = b then after as bs else b < a

def largeHeader (file : List UInt8) : Except Fault Header := do
  let heading := peek file 4 12
  if heading ≠ [0xff, 0xff, 0xff, 0xff] ++ ascii "WAVEds64" then refuse (.heading heading)
  else
    let o : ByteOrder := if after (peek file 24 4) (peek file 20 4) then .big else .little
    let fileEnd ← word .little file 20 8
    let known ← word .little file 28 8
    let size ← word o file 16 4
    if size ≤ 40 then return ⟨some known, fileEnd, o, 36 + reach file 36 (40 - size)⟩
    else if size = 41 then return ⟨some known, fileEnd, o, max 36 file.length⟩
    else .error .badValue

def headerOf (file : List UInt8) : Except Fault Header :=
  let signature := peek file 0 4
  if signature = ascii "RIFF" then riffHeader .little file
  else if signature = ascii "RIFX" then riffHeader .big file
  else if signature = ascii "RF64" then largeHeader file
  else refuse (.signature signature)

def read (file : List UInt8) : Except Fault Sound := do
  let h ← headerOf file
  let done ← sections h.order h.known h.fileEnd file h.begin_ ⟨none, none⟩
  match done.layout, done.samples with
  | some l, some s => return ⟨l.rate, s⟩
  | _, _ => .error .unassigned

end Jumpcut.Wave
