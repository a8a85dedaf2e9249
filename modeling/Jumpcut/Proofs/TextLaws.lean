import Jumpcut.Proofs.DecimalLaws
import Jumpcut.Proofs.MarkupLaws
import Jumpcut.Proofs.OutcomeLaws
import Jumpcut.Url

namespace Jumpcut.Xml

open Outcome Decimal List

theorem isText_of_digits {s : String} (h : ∀ c ∈ s.toList, c.isDigit) : isText s := by
  rw [isText, all_eq_true]
  intro c hc
  refine isTextChar_of_isAlphanum ?_
  rw [Char.isAlphanum, h c hc, Bool.or_true]

theorem isText_nat (n : Nat) : isText (toString n) :=
  isText_of_digits fun c hc =>
    (spells_toDigits n).digits c (toList_toString n ▸ hc)

theorem isText_int (n : Int) : isText (toString n) := by
  cases n with
  | ofNat m => exact isText_nat m
  | negSucc m =>
    have htext : toString (Int.negSucc m) = "-" ++ toString (m + 1) := rfl
    rw [htext, isText_append, isText_nat]
    decide

theorem label_inj {s : String} {m n : Nat} : s ++ toString m = s ++ toString n ↔ m = n := by
  rw [String.append_right_inj]
  exact Nat.repr_inj

@[simp] theorem isText_natRepr (n : Nat) : isText n.repr := isText_nat n

@[simp] theorem isText_intRepr (n : Int) : isText n.repr := isText_int n

theorem isText_ofList_of_subset {cs : List Char} {s : String} (h : isText s) (hcs : cs ⊆ s.toList) :
    isText (String.ofList cs) := by
  rw [isText, all_eq_true] at h
  rw [isText, String.toList_ofList, all_eq_true]
  exact fun c hc => h c (hcs hc)

theorem isText_zeros (n : Nat) : isText (zeros n) := by
  rw [isText, toList_zeros, all_replicate]
  split <;> decide

theorem isText_exponentText (e : Int) : isText (exponentText e) := by
  rw [exponentText, isText_append]
  have hbody := isText_nat e.natAbs
  split <;> split <;> simp only [isText_append, hbody] <;> decide

theorem isText_layout (l : Layout) (x : Digits) : isText (l.render x) := by
  have hdigits := isText_nat x.digits
  rw [Layout.render]
  simp only
  split
  · split
    · simp only [isText_append, isText_zeros, hdigits]
      decide
    · split
      · simp only [isText_append, isText_zeros, hdigits]
        split <;> decide
      · simp only [isText_append, isText_ofList_of_subset hdigits (take_subset _ _),
          isText_ofList_of_subset hdigits (drop_subset _ _)]
        decide
  · rw [isText_append, isText_exponentText]
    split
    · decide
    · next c heq =>
      rw [isText_ofList_of_subset hdigits (heq ▸ Subset.refl _)]
      rfl
    · next c cs _ heq =>
      have hcs : isText (String.ofList (c :: cs)) :=
        isText_ofList_of_subset hdigits (heq ▸ Subset.refl _)
      simp only [isText, String.toList_ofList, all_cons, Bool.and_eq_true] at hcs
      simp only [isText, String.toList_ofList, all_cons, hcs]
      decide

theorem isText_float (l : Layout) (x : Float) : isText (l.float x) := by
  rw [Layout.float]
  split
  · decide
  · split <;> decide
  · next neg m e _ =>
    have hbody : isText (if m = 0 then (if l.wholePoint then "0.0" else "0")
        else l.render (shortest m e)) := by
      split
      · split <;> decide
      · exact isText_layout l _
    simp only
    split
    · rw [isText_append, hbody]
      decide
    · exact hbody

theorem isText_display (x : Number) : isText x.display := by
  have hint : ∀ {n : Int} {s : String}, Number.intText n = .ok s → isText s := by
    intro n s h
    rw [Number.intText] at h
    split at h
    · cases h
      exact isText_int n
    · cases h
  rw [Number.display]
  split
  · next s h =>
    cases x with
    | int n => exact hint h
    | float x =>
      cases h
      exact isText_float _ x
    | frac q =>
      simp only [Number.text, Number.fracText, bind_eq_ok] at h
      obtain ⟨n, hn, h⟩ := h
      split at h
      · cases h
        exact hint hn
      · simp only [bind_eq_ok] at h
        obtain ⟨d, hd, h⟩ := h
        cases h
        rw [isText_append, isText_append, hint hn, hint hd]
        decide
    | complex re im =>
      cases h
      have hre := isText_float bare re
      have him := isText_float bare im
      rw [Number.complexText]
      simp only
      split
      · rw [isText_append, him]
        decide
      · simp only [isText_append, hre, him]
        split <;> decide
  · decide

theorem isTextChar_hexDigit (n : Nat) : isTextChar (Text.hexDigit n).toUpper := by
  have hall : ∀ m < 16, isTextChar ((Nat.toDigits 16 m).headD '0').toUpper := by
    decide +kernel
  exact hall (n % 16) (Nat.mod_lt n (by decide))

theorem isTextChar_of_isPlain {b : UInt8} (h : Url.isPlain b) :
    isTextChar (Char.ofNat b.toNat) := by
  simp only [Url.isPlain, Bool.and_eq_true, Bool.or_eq_true] at h
  rcases h.2 with hc | hc
  · exact isTextChar_of_isAlphanum hc
  · have hall : "_.-~/".toList.all isTextChar := by
      decide
    exact all_eq_true.1 hall _ (by simpa using hc)

theorem isText_ofPath (path : String) : isText (Url.ofPath path) := by
  have hbyte : ∀ b : UInt8, (if Url.isPlain b then (Char.ofNat b.toNat).toString
      else "%" ++ (Text.hexText 2 b.toNat).toUpper).toList.all isTextChar := by
    intro b
    split
    · next h => simpa using isTextChar_of_isPlain h
    · simp [Text.hexText, String.toUpper, isTextChar_hexDigit]
      decide
  rw [Url.ofPath, isText_append, Url.quotePath, isText, isText, String.toList_join,
    flatMap_map, all_flatMap, all_eq_true.2 fun b _ => hbyte b]
  decide

end Jumpcut.Xml
