import Jumpcut.Proofs.EvalLaws
import Jumpcut.Proofs.NormalLaws

namespace Jumpcut.Script

open Outcome List Number Signature Prim Run

def Value.Normal : Value → Prop
  | .num x => x.Normal
  | .pair a d => a.Normal ∧ d.Normal
  | _ => True

def KeepsNormal (f : List Value → Except Fault Value) : Prop :=
  ∀ vs v, (∀ w ∈ vs, w.Normal) → f vs = .ok v → v.Normal

def difference : List Rat → Rat
  | [] => 0
  | q :: qs => q - qs.sum

/-- Calls of the procedures that do not reduce a whole fraction to an integer. -/
inductive Leaks : Prim → List Number → Prop
  | add {xs} : Collapses sum xs → Leaks .add xs
  | sub {xs} : Collapses difference xs → Leaks .sub xs
  | mul {xs} : Collapses prod xs → Leaks .mul xs
  | expt {q : Rat} {n : Int} : Whole (q ^ n) → Leaks .expt [.frac q, .int n]

variable {p : Prim} {v w a b : Value} {vs : List Value} {x y z : Number} {xs : List Number}
  {f : Value → Value → Except Fault Value}

theorem numbers_map (xs : List Number) : numbers (xs.map .num) = xs := by
  induction xs with
  | nil => rfl
  | cons x xs ih => exact congrArg (x :: ·) ih

theorem normal_of_mem_numbers (hvs : ∀ v ∈ vs, v.Normal) (hx : x ∈ numbers vs) : x.Normal := by
  obtain ⟨v, hv, hnumber⟩ := mem_filterMap.1 hx
  have hnormal := hvs v hv
  cases v with
  | num y =>
    cases hnumber
    exact hnormal
  | bool b =>
    cases hnumber
    exact normal_int _
  | _ => cases hnumber

theorem meets_single {c : Contract} : meets [c] vs ↔ ∀ v ∈ vs, v.satisfies c := by
  induction vs with
  | nil => simp [meets]
  | cons v vs ih => rw [meets, Bool.and_eq_true, ih, forall_mem_cons]

theorem exists_numbers (h : ∀ v ∈ vs, v.satisfies .number) :
    ∃ xs : List Number, vs = xs.map .num := by
  induction vs with
  | nil => exact ⟨[], rfl⟩
  | cons v vs ih =>
    obtain ⟨hv, hvs⟩ := forall_mem_cons.1 h
    obtain ⟨xs, rfl⟩ := ih hvs
    cases v with
    | num x => exact ⟨x :: xs, rfl⟩
    | _ => cases hv

theorem Signature.check_eq_ok {s : Signature} :
    s.check vs = .ok () ↔ s.arity.admits vs.length ∧ meets s.contracts vs := by
  rw [check, bind_eq_ok, Arity.check]
  cases s.arity.admits vs.length <;> cases meets s.contracts vs <;> simp [refuse]

theorem unary_eq_ok {f : Value → Except Fault Value} :
    unary f vs = .ok v ↔ ∃ w, vs = [w] ∧ f w = .ok v := by
  rw [unary.eq_def]
  split
  · simp
  · next hvs =>
    constructor
    · intro h
      cases h
    · rintro ⟨w, rfl, -⟩
      exact (hvs w rfl).elim

theorem binary_eq_ok : binary f vs = .ok v ↔ ∃ a b, vs = [a, b] ∧ f a b = .ok v := by
  rw [binary.eq_def]
  split
  · simp
  · next hvs =>
    constructor
    · intro h
      cases h
    · rintro ⟨a, b, rfl, -⟩
      exact (hvs a b rfl).elim

theorem onNumber_eq_ok {f : Number → Except Fault Value} :
    onNumber f vs = .ok v ↔ ∃ x, vs = [.num x] ∧ f x = .ok v := by
  rw [onNumber, unary_eq_ok]
  constructor
  · rintro ⟨w, rfl, hw⟩
    cases w with
    | num x => exact ⟨x, rfl, hw⟩
    | _ => cases hw
  · rintro ⟨x, rfl, hx⟩
    exact ⟨.num x, rfl, hx⟩

theorem onNumbers_eq_ok {f : Number → Number → Except Fault Value} :
    onNumbers f vs = .ok v ↔ ∃ x y, vs = [.num x, .num y] ∧ f x y = .ok v := by
  rw [onNumbers, binary_eq_ok]
  constructor
  · rintro ⟨a, b, rfl, hab⟩
    split at hab
    · exact ⟨_, _, rfl, hab⟩
    · cases hab
  · rintro ⟨x, y, rfl, hxy⟩
    exact ⟨.num x, .num y, rfl, hxy⟩

theorem keepsNormal_unary {f : Value → Except Fault Value}
    (hf : ∀ w v, w.Normal → f w = .ok v → v.Normal) : KeepsNormal (unary f) := by
  intro vs v hvs h
  obtain ⟨w, rfl, hw⟩ := unary_eq_ok.1 h
  exact hf w v (hvs w (.head _)) hw

theorem keepsNormal_binary (hf : ∀ a b v, a.Normal → b.Normal → f a b = .ok v → v.Normal) :
    KeepsNormal (binary f) := by
  intro vs v hvs h
  obtain ⟨a, b, rfl, hab⟩ := binary_eq_ok.1 h
  exact hf a b v (hvs a (.head _)) (hvs b (.tail _ (.head _))) hab

theorem keepsNormal_onNumber {f : Number → Except Fault Value}
    (hf : ∀ x v, x.Normal → f x = .ok v → v.Normal) : KeepsNormal (onNumber f) := by
  intro vs v hvs h
  obtain ⟨x, rfl, hx⟩ := onNumber_eq_ok.1 h
  exact hf x v (hvs (.num x) (.head _)) hx

theorem keepsNormal_onNumber_num {g : Number → Except Fault Number}
    (hg : ∀ x z, x.Normal → g x = .ok z → z.Normal) :
    KeepsNormal (onNumber fun x => do return .num (← g x)) := by
  apply keepsNormal_onNumber
  intro x v hx h
  simp only [bind_eq_ok] at h
  obtain ⟨z, hz, h⟩ := h
  cases h
  exact hg x z hx hz

theorem keepsNormal_onText {f : String → Except Fault Value}
    (hf : ∀ s v, f s = .ok v → v.Normal) : KeepsNormal (onText f) := by
  apply keepsNormal_unary
  intro w v _ h
  cases w with
  | str s => exact hf s v h
  | _ => cases h

theorem keepsNormal_onPair (hf : ∀ a d v, a.Normal → d.Normal → f a d = .ok v → v.Normal) :
    KeepsNormal (onPair f) := by
  apply keepsNormal_unary
  intro w v hw h
  cases w with
  | pair a d => exact hf a d v hw.1 hw.2 h
  | _ => cases h

theorem keepsNormal_predicate (f : Value → Bool) : KeepsNormal (predicate f) := by
  apply keepsNormal_unary
  rintro w v - ⟨⟩
  trivial

theorem keepsNormal_comparison (f : Number → Number → Bool) : KeepsNormal (comparison f) := by
  intro vs v _ h
  obtain ⟨x, y, -, hxy⟩ := onNumbers_eq_ok.1 h
  cases hxy
  trivial

theorem keepsNormal_test (f : Number → Bool) :
    KeepsNormal (onNumber fun x => .ok (.bool (f x))) := by
  apply keepsNormal_onNumber
  rintro x v - ⟨⟩
  trivial

theorem keepsNormal_text (f : String → String) :
    KeepsNormal (onText fun s => .ok (.str (f s))) := by
  apply keepsNormal_onText
  rintro s v ⟨⟩
  trivial

theorem normal_keepingKind {f : Number → Except Fault Int}
    (h : keepingKind f x = .ok v) : v.Normal := by
  rw [keepingKind, bind_eq_ok] at h
  obtain ⟨n, -, h⟩ := h
  split at h
  · simp only [bind_eq_ok] at h
    obtain ⟨a, -, h⟩ := h
    cases h
    exact normal_float a
  · cases h
    exact normal_int n

theorem normal_exactly {f : Number → Except Fault Int} (h : exactly f x = .ok v) : v.Normal := by
  simp only [exactly, bind_eq_ok] at h
  obtain ⟨n, -, h⟩ := h
  cases h
  exact normal_int n

theorem normal_best {better : Number → Number → Bool} (hxs : ∀ x ∈ xs, x.Normal)
    (h : best better xs = .ok v) : v.Normal := by
  have hfold (ys : List Number) (y : Number) (hy : y.Normal) (hys : ∀ x ∈ ys, x.Normal) :
      (ys.foldl (fun m y => if better y m then y else m) y).Normal := by
    induction ys generalizing y with
    | nil => exact hy
    | cons x ys ih =>
      obtain ⟨hx, hys⟩ := forall_mem_cons.1 hys
      rw [foldl_cons]
      split
      · exact ih x hx hys
      · exact ih y hy hys
  cases xs with
  | nil => cases h
  | cons x xs =>
    cases h
    exact hfold xs x (hxs x (.head _)) fun y hy => hxs y (.tail _ hy)

theorem normal_connective {name : String} {least : Nat} {f : Bool → Bool → Bool}
    (h : connective name least f vs = .ok v) : v.Normal := by
  rw [connective.eq_def] at h
  split at h
  all_goals
    simp only [bind_eq_ok] at h
    obtain ⟨-, -, r, -, h⟩ := h
    cases h
    trivial

theorem normal_widen (h : widen vs = .ok v) : v.Normal := by
  simp only [widen] at h
  split at h
  all_goals
    rw [bind_eq_ok] at h
    obtain ⟨-, -, h⟩ := h
    split at h
    · cases h
      trivial
    · cases h
      trivial
    · cases h

theorem normal_equal (h : a.equal b = .ok v) : v.Normal := by
  rw [Value.equal.eq_def] at h
  split at h
  · cases h
    trivial
  · split at h
    · cases h
      trivial
    · simp only [bind_eq_ok] at h
      obtain ⟨r, -, h⟩ := h
      cases h
      cases r <;> trivial

theorem normal_invert (h : invert a = .ok v) : v.Normal := by
  cases a with
  | bool b =>
    cases h
    trivial
  | flags bs =>
    cases h
    trivial
  | _ => cases h

theorem normal_getLast (hvs : ∀ v ∈ vs, v.Normal) : (vs.getLast?.getD .none).Normal := by
  cases hlast : vs.getLast? with
  | none => trivial
  | some w => exact hvs w (mem_of_getLast? hlast)

theorem isInexactNumber_iff : isInexactNumber x ↔ x.rational? = none := by
  cases x <;> simp [isInexactNumber, rational?]

theorem normal_divide (h : divide xs = .ok z) : z.Normal := by
  rw [divide.eq_def] at h
  extract_lets ys exact inexact at h
  clear_value ys
  split at h
  · next hany =>
    have hinexact {x y z} (hz : inexact x y = .ok z) (hxy : x.rational? = none ∨ y.rational? = none) :
        z.rational? = none := by
      simp only [inexact] at hz
      split at hz
      · cases hz
      · exact div_inexact hz hxy
    cases ys with
    | nil => cases h
    | cons y ys =>
      apply normal_of_isFrac
      apply isFrac_of_rational?
      apply foldlM_inexact hinexact h
      simpa [isInexactNumber_iff] using hany
  · rw [bind_eq_ok] at h
    obtain ⟨r, -, h⟩ := h
    split at h
    · cases h
      exact normal_simplify _
    · next hr =>
      cases h
      apply normal_of_isFrac
      cases z with
      | frac q => exact (hr q rfl).elim
      | _ => rfl

theorem normal_ofList (hvs : ∀ v ∈ vs, v.Normal) : (Value.ofList vs).Normal := by
  induction vs with
  | nil => trivial
  | cons v vs ih =>
    obtain ⟨hv, hvs⟩ := forall_mem_cons.1 hvs
    exact ⟨hv, ih hvs⟩

theorem normal_item {d : Value} {k : Nat} (ha : a.Normal) (hd : d.Normal)
    (h : Value.item a d k = .ok v) : v.Normal := by
  induction k generalizing a d with
  | zero =>
    rw [Value.item] at h
    cases h
    exact ha
  | succ k ih =>
    rw [Value.item.eq_def] at h
    dsimp only at h
    split at h
    · cases h
    · exact ih hd.1 hd.2 h
    · cases h

theorem normal_listRef (ha : a.Normal) (h : listRef a b = .ok v) : v.Normal := by
  rw [listRef.eq_def] at h
  split at h
  · split at h
    · cases h
    · exact normal_item ha.1 ha.2 h
  · cases h

theorem normal_stringRef (h : stringRef a b = .ok v) : v.Normal := by
  rw [stringRef.eq_def] at h
  split at h
  · simp only [charAt] at h
    split_ifs at h
    all_goals
      split at h
      · cases h
        trivial
      · cases h
  · cases h

theorem normal_lengthOf (h : lengthOf a = .ok v) : v.Normal := by
  rw [lengthOf.eq_def] at h
  split at h
  · cases h
    exact normal_int _
  · split at h
    · cases h
      exact normal_int _
    · cases h

theorem normal_numberText (h : numberText x = .ok v) : v.Normal := by
  rw [numberText.eq_def] at h
  split at h
  · cases h
    trivial
  · simp only [bind_eq_ok] at h
    obtain ⟨s, -, h⟩ := h
    cases h
    trivial

theorem normal_cook (h : cook vs = .ok v) : v.Normal := by
  rw [cook.eq_def] at h
  split at h
  · cases h
    trivial
  · cases h

theorem normal_removeShort {x y : Bool} (h : removeShort x y a b = .ok v) : v.Normal := by
  rw [removeShort, bind_eq_ok] at h
  obtain ⟨xs, -, h⟩ := h
  split at h
  · cases h
    trivial
  · cases h

theorem normal_countNonzero (h : countNonzero a = .ok v) : v.Normal := by
  cases a with
  | flags bs =>
    cases h
    exact normal_int _
  | _ => cases h

theorem normal_remainder (hvs : ∀ v ∈ vs, v.Normal) (hwhole : ∀ v ∈ vs, v.satisfies .integer)
    (h : remainder vs = .ok v) : v.Normal := by
  have hkind (x : Number) (hx : x ∈ numbers vs) : x.isFrac = false := by
    obtain ⟨w, hw, hnumber⟩ := mem_filterMap.1 hx
    have hnormal := hvs w hw
    have hinteger := hwhole w hw
    cases w with
    | num y =>
      cases hnumber
      apply isFrac_of_isWhole hnormal
      cases x <;> exact hinteger
    | bool b =>
      cases hnumber
      rfl
    | _ => cases hnumber
  rw [remainder] at h
  split at h
  · next a b hab =>
    simp only [bind_eq_ok] at h
    obtain ⟨r, hr, h⟩ := h
    cases h
    rw [hab] at hkind
    apply normal_of_isFrac
    exact isFrac_mod (hkind a (.head _)) (hkind b (.tail _ (.head _))) hr
  · cases h

theorem foldl_sub (q : Rat) (qs : List Rat) : qs.foldl (· - ·) q = q - qs.sum := by
  induction qs generalizing q with
  | nil => simp
  | cons r qs ih => rw [foldl_cons, ih, sum_cons, sub_sub]

theorem exists_num_iff {r : Except Fault Number} :
    (∃ v, (do return Value.num (← r)) = .ok v ∧ ¬ v.Normal) ↔ ∃ z, r = .ok z ∧ ¬ z.Normal := by
  simp only [bind_eq_ok, pure_eq_ok]
  constructor
  · rintro ⟨v, ⟨z, hz, rfl⟩, hv⟩
    exact ⟨z, hz, hv⟩
  · rintro ⟨z, hz, hv⟩
    exact ⟨.num z, ⟨z, hz, rfl⟩, hv⟩

theorem run_add_iff : (∃ v, run .add (xs.map .num) = .ok v ∧ ¬ v.Normal) ↔
    Collapses sum xs := by
  simp only [run, numbers_map, exists_num_iff]
  refine (foldlM_not_normal_iff (by simp)).trans ?_
  simp [Collapses, rational?, isFrac, sum_eq_foldl]

theorem run_mul_iff : (∃ v, run .mul (xs.map .num) = .ok v ∧ ¬ v.Normal) ↔
    Collapses prod xs := by
  simp only [run, numbers_map, exists_num_iff]
  refine (foldlM_not_normal_iff (by simp)).trans ?_
  simp [Collapses, rational?, isFrac, prod_eq_foldl]

theorem run_sub_iff (hxs : ∀ x ∈ xs, x.Normal) :
    (∃ v, run .sub (xs.map .num) = .ok v ∧ ¬ v.Normal) ↔
      Collapses difference xs := by
  rcases xs with _ | ⟨x, _ | ⟨y, ys⟩⟩
  · simp [run, subtract, numbers, reduce, Collapses]
  · have hx := hxs x (.head _)
    have hcollapses : Collapses difference [x] ↔ ¬ x.Normal := by
      rw [collapses_cons_iff, not_normal_iff]
      simp [difference, and_left_comm]
    simp [run, subtract, hcollapses, hx, Value.Normal, hx.neg]
  · have hrun : run .sub ((x :: y :: ys).map .num) =
        (do return .num (← reduce sub (numbers ((x :: y :: ys).map .num)))) := rfl
    rw [hrun, numbers_map, exists_num_iff]
    refine (foldlM_not_normal_iff (by simp)).trans ?_
    simp only [collapses_cons_iff, difference, foldl_sub]

theorem Prim.keepsNormal_run (hp : p ∉ [.add, .sub, .mul, .expt, .mod, .modulo]) :
    KeepsNormal p.run := by
  cases p with
  | add | sub | mul | expt | mod | modulo => simp at hp
  | greater | greaterEqual | less | lessEqual => exact keepsNormal_comparison _
  | isList | isPair | isNull | isNumber | isExact | isInexact | isReal | isInteger | isExactInteger
  | isBoolean | isString | isChar | isBoolarr => exact keepsNormal_predicate _
  | isPositive | isNegative | isZero => exact keepsNormal_test _
  | stringUpcase | stringDowncase | stringTitlecase => exact keepsNormal_text _
  | display | numEqual | string | stringAppend | boolarr =>
    rintro vs v - ⟨⟩
    trivial
  | and | or | xor => exact fun vs v _ h => normal_connective h
  | max | min => exact fun vs v hvs h => normal_best (fun x hx => normal_of_mem_numbers hvs hx) h
  | margin => exact fun vs v _ h => normal_widen h
  | cook => exact fun vs v _ h => normal_cook h
  | exit => exact keepsNormal_unary fun w v _ h => by cases h
  | not => exact keepsNormal_unary fun w v _ h => normal_invert h
  | length => exact keepsNormal_unary fun w v _ h => normal_lengthOf h
  | countNonzero => exact keepsNormal_unary fun w v _ h => normal_countNonzero h
  | mincut | minclip => exact keepsNormal_binary fun a b v _ _ h => normal_removeShort h
  | isEqual => exact keepsNormal_binary fun a b v _ _ h => normal_equal h
  | listRef => exact keepsNormal_binary fun a b v ha _ h => normal_listRef ha h
  | stringRef => exact keepsNormal_binary fun a b v _ _ h => normal_stringRef h
  | error => exact keepsNormal_onText fun s v h => by cases h
  | numberToString => exact keepsNormal_onNumber fun x v _ h => normal_numberText h
  | ceil | ceiling | floor | round =>
    exact keepsNormal_onNumber fun x v _ h => normal_keepingKind h
  | exactCeil | exactCeiling | exactFloor | exactRound =>
    exact keepsNormal_onNumber fun x v _ h => normal_exactly h
  | add1 => exact keepsNormal_onNumber_num fun x z hx h => hx.add_one h
  | sub1 => exact keepsNormal_onNumber_num fun x z hx h => hx.sub_one h
  | sqrt =>
    apply keepsNormal_onNumber_num
    intro x z _ h
    exact normal_of_isFrac (isFrac_sqrt h)
  | div =>
    intro vs v _ h
    simp only [run, bind_eq_ok] at h
    obtain ⟨z, hz, h⟩ := h
    cases h
    exact normal_divide hz
  | sequence =>
    rintro vs v hvs ⟨⟩
    exact normal_getLast hvs
  | list =>
    rintro vs v hvs ⟨⟩
    exact normal_ofList hvs
  | cons =>
    apply keepsNormal_binary
    rintro a b v ha hb ⟨⟩
    exact ⟨ha, hb⟩
  | car =>
    apply keepsNormal_onPair
    rintro a d v ha - ⟨⟩
    exact ha
  | cdr =>
    apply keepsNormal_onPair
    rintro a d v - hd ⟨⟩
    exact hd
  | stringLength =>
    apply keepsNormal_onText
    rintro s v ⟨⟩
    exact normal_int _
  | realPart =>
    apply keepsNormal_onNumber
    rintro x v hx ⟨⟩
    exact hx.realPart
  | imagPart =>
    apply keepsNormal_onNumber
    rintro x v - ⟨⟩
    exact x.normal_imagPart
  | abs =>
    apply keepsNormal_onNumber
    rintro x v hx ⟨⟩
    exact hx.abs

theorem run_expt_normal (hvs : ∀ v ∈ vs, v.Normal) (h : run .expt vs = .ok v) :
    v.Normal ∨ ∃ xs : List Number, vs = xs.map .num ∧ Leaks .expt xs := by
  obtain ⟨x, y, rfl, hxy⟩ := onNumbers_eq_ok.1 h
  simp only [bind_eq_ok] at hxy
  obtain ⟨z, hz, hxy⟩ := hxy
  cases hxy
  have hy : y.Normal := hvs (.num y) (.tail _ (.head _))
  refine or_iff_not_imp_left.2 fun hnot => ?_
  obtain ⟨q, n, rfl, rfl, hwhole⟩ := not_normal_pow hy hz hnot
  exact ⟨[.frac q, .int n], rfl, .expt hwhole⟩

theorem integers_of_check {name : String}
    (h : check ⟨name, .exactly 2, [.integer, .integer]⟩ vs = .ok ()) :
    ∀ v ∈ vs, v.satisfies .integer := by
  obtain ⟨harity, hmeets⟩ := check_eq_ok.1 h
  have hlength : vs.length = 2 := by simpa [Arity.admits] using harity
  obtain ⟨a, b, rfl⟩ := length_eq_two.1 hlength
  simpa [meets] using hmeets

theorem Prim.run_normal (hcheck : p.signature.check vs = .ok ()) (hvs : ∀ v ∈ vs, v.Normal)
    (h : p.run vs = .ok v) : v.Normal ∨ ∃ xs : List Number, vs = xs.map .num ∧ Leaks p xs := by
  by_cases hp : p ∉ [.add, .sub, .mul, .expt, .mod, .modulo]
  · exact .inl (keepsNormal_run hp vs v hvs h)
  · have hmeets := (check_eq_ok.1 hcheck).2
    simp only [not_not, mem_cons, not_mem_nil, or_false] at hp
    refine or_iff_not_imp_left.2 fun hv => ?_
    rcases hp with rfl | rfl | rfl | rfl | rfl | rfl
    · obtain ⟨xs, rfl⟩ := exists_numbers (meets_single.1 hmeets)
      exact ⟨xs, rfl, .add (run_add_iff.1 ⟨v, h, hv⟩)⟩
    · obtain ⟨xs, rfl⟩ := exists_numbers (meets_single.1 hmeets)
      have hxs (x : Number) (hx : x ∈ xs) : x.Normal := hvs (.num x) (mem_map_of_mem hx)
      exact ⟨xs, rfl, .sub ((run_sub_iff hxs).1 ⟨v, h, hv⟩)⟩
    · obtain ⟨xs, rfl⟩ := exists_numbers (meets_single.1 hmeets)
      exact ⟨xs, rfl, .mul (run_mul_iff.1 ⟨v, h, hv⟩)⟩
    · exact (run_expt_normal hvs h).resolve_left hv
    · exact absurd (normal_remainder hvs (integers_of_check hcheck) h) hv
    · exact absurd (normal_remainder hvs (integers_of_check hcheck) h) hv

theorem meets_number (xs : List Number) : meets [.number] (xs.map .num) := by
  rw [meets_single]
  intro v hv
  obtain ⟨x, -, rfl⟩ := mem_map.1 hv
  rfl

theorem Prim.run_of_leaks (hxs : ∀ x ∈ xs, x.Normal) (h : Leaks p xs) :
    p.signature.check (xs.map .num) = .ok () ∧ ∃ v, p.run (xs.map .num) = .ok v ∧ ¬ v.Normal := by
  cases h with
  | add hcollapse =>
    exact ⟨check_eq_ok.2 ⟨rfl, meets_number xs⟩, run_add_iff.2 hcollapse⟩
  | mul hcollapse =>
    exact ⟨check_eq_ok.2 ⟨rfl, meets_number xs⟩, run_mul_iff.2 hcollapse⟩
  | sub hcollapse =>
    refine ⟨check_eq_ok.2 ⟨?_, meets_number xs⟩, (run_sub_iff hxs).2 hcollapse⟩
    obtain ⟨rs, -, hfrac, -⟩ := hcollapse
    cases xs with
    | nil => cases hfrac
    | cons x xs => simp [signature, Arity.admits]
  | @expt q n hwhole =>
    have hq : q ≠ 0 := by
      rintro rfl
      exact normal_frac.1 (hxs (.frac 0) (.head _)) ⟨0, by simp⟩
    have hpow : pow (.frac q) (.int n) = .ok (.frac (q ^ n)) :=
      fracPow_eq_ok.2 ⟨.inr hq, rfl⟩
    refine ⟨rfl, .num (.frac (q ^ n)), ?_, fun hnormal => normal_frac.1 hnormal hwhole⟩
    exact onNumbers_eq_ok.2 ⟨.frac q, .int n, rfl, by rw [hpow]; rfl⟩

section Indices

variable {σ : Type} {m : Machine σ} {items : List Value} {k j : Int}

/-- What is asked of a call that gets an item by its index. Where there is no such item, it has to
complain to the author of the script. -/
def ChecksIndex (items : List Value) (k : Int) (m : Machine σ)
    (r : EStateM.Result Fault (Machine σ) Value) : Prop :=
  if 0 ≤ k ∧ k < items.length then ∃ v, items[k.toNat]? = some v ∧ r = .ok v m
  else ∃ e, r = .error (.script e) m

theorem checksIndex_iff {found : Option Value} {complaint : Int → Error}
    (hfound : 0 ≤ k → k < items.length → found = items[k.toNat]?) :
    ChecksIndex items k m (ofExcept (found.elim (.error (Value.naming j complaint)) .ok) m) ↔
      0 ≤ k ∧ k < items.length ∨ found = none ∧ isWritable j := by
  rw [ChecksIndex]
  split
  · next hk =>
    have hv := getElem?_eq_getElem (show k.toNat < items.length by omega)
    refine iff_of_true ⟨_, hv, ?_⟩ (.inl hk)
    rw [hfound hk.1 hk.2, hv]
    rfl
  · next hk =>
    rw [or_iff_right hk]
    cases found with
    | some v => simp [Run.ofExcept, pure, EStateM.pure]
    | none =>
      change (∃ e, EStateM.Result.error (Value.naming j complaint) m = .error (.script e) m) ↔ _
      rw [Value.naming]
      split <;> simp_all

theorem item_ofList (k : Nat) : Value.item a (.ofList vs) k =
    (a :: vs)[k]?.elim (.error (Value.naming (k - (a :: vs).length) .listIndex)) .ok := by
  induction vs generalizing a k with
  | nil =>
    cases k with
    | zero => rfl
    | succ k => simp [Value.ofList, Value.item]
  | cons w vs ih =>
    cases k with
    | zero => rfl
    | succ k => simp [Value.ofList, Value.item, ih]

theorem listRef_ofList : listRef (.ofList (a :: vs)) (.num (.int k)) =
    (if k < 0 then none else (a :: vs)[k.toNat]?).elim
      (.error (Value.naming (if k < 0 then k else k - (a :: vs).length) .listIndex)) .ok := by
  rw [Value.ofList, listRef]
  split
  · rfl
  · next hk => rw [item_ofList, Int.toNat_of_nonneg (not_lt.1 hk)]

theorem charAt_eq {s : String} (hj : j = if k < 0 then k + s.length else k) : charAt s k =
    (if 0 ≤ j then (s.toList.map .char)[j.toNat]? else none).elim
      (.error (Value.naming k .stringIndex)) .ok := by
  rw [charAt, String.length_toList, ← hj]
  split
  · rw [getElem?_map]
    cases s.toList[j.toNat]? <;> rfl
  · rfl

/-- An index of a list is always checked. One of a text is not if it is below zero and there are as
many characters: it counts from the end. An index with too many digits cannot be complained of. -/
theorem accessors_check_index_iff {σ : Type} (host : Host σ) (m : Machine σ) (v : Value)
    (vs : List Value) (s : String) (k : Int) :
    (∃ l, call host .list (v :: vs) m = .ok l m ∧
      (ChecksIndex (v :: vs) k m (call host .listRef [l, .num (.int k)] m) ↔
        0 ≤ k ∧ k < (v :: vs).length ∨ isWritable (if k < 0 then k else k - (v :: vs).length))) ∧
    (ChecksIndex (s.toList.map .char) k m (call host .stringRef [.str s, .num (.int k)] m) ↔
      0 ≤ k ∧ k < s.length ∨ (k < -s.length ∨ s.length ≤ k) ∧ isWritable k) ∧
    (-s.length ≤ k → k < 0 → ∃ c, s.toList[(k + s.length).toNat]? = some c ∧
      call host .stringRef [.str s, .num (.int k)] m = .ok (.char c) m) := by
  have hstring : call host .stringRef [.str s, .num (.int k)] m = ofExcept (charAt s k) m :=
    call_of_check rfl (by decide)
  refine ⟨⟨_, call_of_run rfl (by decide) rfl, ?_⟩, ?_, fun hlow hneg => ?_⟩
  · have hlist : call host .listRef [.ofList (v :: vs), .num (.int k)] m =
        ofExcept (listRef (.ofList (v :: vs)) (.num (.int k))) m :=
      call_of_check rfl (by decide)
    rw [hlist, listRef_ofList, checksIndex_iff fun h _ => if_neg (not_lt.2 h)]
    refine or_congr_right' fun hk => and_iff_right ?_
    split
    · rfl
    · exact getElem?_eq_none (by omega)
  · rw [hstring, charAt_eq rfl, checksIndex_iff, length_map, String.length_toList]
    · refine or_congr_right' fun hk => and_congr_left fun _ => ?_
      rw [ite_eq_right_iff, getElem?_eq_none_iff, length_map, String.length_toList]
      split <;> omega
    · intro h _
      rw [if_neg (not_lt.2 h), if_pos h]
  · have hk : (k + s.length).toNat < s.toList.length := by
      rw [String.length_toList]
      omega
    refine ⟨_, getElem?_eq_getElem hk, ?_⟩
    rw [hstring, charAt_eq rfl, if_pos hneg, if_pos (by omega), getElem?_map,
      getElem?_eq_getElem hk]
    rfl

theorem stringRef_abc_last : stringRef (.str "abc") (.num (.int (-1))) = .ok (.char 'c') := rfl

end Indices

end Jumpcut.Script
