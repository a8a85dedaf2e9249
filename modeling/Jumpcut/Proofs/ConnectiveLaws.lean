import Jumpcut.Analysis.Method
import Jumpcut.Proofs.AttributeLaws
import Jumpcut.Proofs.RemovalLaws
import Mathlib.Data.Bool.Basic
import Mathlib.Data.List.GetD
import Mathlib.Data.List.Perm.Basic

/-!
Connectives of flags. Lists of different lengths are filled up with false while they are combined two
at a time; in the end every tick holds the connective of all the lists' ticks, so the order of the
lists does not matter. Loudness in any stream is the same fold over the streams.
-/
namespace Jumpcut

open List Method Setting Flags Levels

namespace Flags

variable {f : Bool → Bool → Bool} {xss : List Flags}

def combine (f : Bool → Bool → Bool) : List Flags → Flags
  | [] => []
  | xs :: xss => xss.foldl (zipWith f) xs

def combineTick (f : Bool → Bool → Bool) : List Bool → Bool
  | [] => false
  | b :: bs => bs.foldl f b

theorem length_zipWith (xs ys : Flags) : (zipWith f xs ys).length = max xs.length ys.length := by
  fun_induction zipWith f xs ys with
  | case1 ys => simp
  | case2 xs _ => simp
  | case3 x xs y ys ih =>
    rw [length_cons, length_cons, length_cons, ih]
    omega

theorem getD_map_false {g : Bool → Bool} (hg : g false = false) (xs : Flags) (k : Nat) :
    (xs.map g).getD k false = g (xs.getD k false) := by
  rw [getD_eq_getElem?_getD, getD_eq_getElem?_getD, getElem?_map]
  cases xs[k]? with
  | none => exact hg.symm
  | some x => rfl

theorem getD_zipWith (hf : f false false = false) (xs ys : Flags) (k : Nat) :
    (zipWith f xs ys).getD k false = f (xs.getD k false) (ys.getD k false) := by
  fun_induction zipWith f xs ys generalizing k with
  | case1 ys => simpa using getD_map_false hf ys k
  | case2 xs _ => simpa using getD_map_false (g := (f · false)) hf xs k
  | case3 x xs y ys ih =>
    cases k with
    | zero => rfl
    | succ k => simpa using ih k

theorem length_foldl_zipWith (xss : List Flags) (xs : Flags) :
    (xss.foldl (zipWith f) xs).length = (xss.map length).foldl max xs.length := by
  induction xss generalizing xs with
  | nil => rfl
  | cons ys xss ih =>
    rw [foldl_cons, ih, length_zipWith, map_cons, foldl_cons]

theorem getD_foldl_zipWith (hf : f false false = false) (xss : List Flags) (xs : Flags) (k : Nat) :
    (xss.foldl (zipWith f) xs).getD k false =
      (xss.map (·.getD k false)).foldl f (xs.getD k false) := by
  induction xss generalizing xs with
  | nil => rfl
  | cons ys xss ih =>
    rw [foldl_cons, ih, getD_zipWith hf, map_cons, foldl_cons]

theorem length_combine (xss : List Flags) :
    (combine f xss).length = (xss.map length).foldl max 0 := by
  cases xss with
  | nil => rfl
  | cons xs xss =>
    rw [combine, length_foldl_zipWith, map_cons, foldl_cons, Nat.zero_max]

theorem max?_length (hne : xss ≠ []) :
    (xss.map length).max? = some (combine f xss).length := by
  rw [length_combine]
  cases xss with
  | nil => exact absurd rfl hne
  | cons xs xss => rw [map_cons, max?_cons', foldl_cons, Nat.zero_max]

theorem getD_combine (hf : f false false = false) (xss : List Flags) (k : Nat) :
    (combine f xss).getD k false = combineTick f (xss.map (·.getD k false)) := by
  cases xss with
  | nil => rfl
  | cons xs xss => rw [combine, getD_foldl_zipWith hf, map_cons, combineTick]

theorem getElem?_combine (hf : f false false = false) {k : Nat} (hk : k < (combine f xss).length) :
    (combine f xss)[k]? = some (combineTick f (xss.map (·.getD k false))) := by
  rw [← getD_combine hf, getD_eq_getElem _ _ hk, getElem?_eq_getElem hk]

structure Orderless (f : Bool → Bool → Bool) (unit : Bool) : Prop where
  start : ∀ b, f unit b = b
  idle : f false false = false
  comm : ∀ a b, f a b = f b a
  assoc : ∀ a b c, f (f a b) c = f a (f b c)

theorem Orderless.combineTick_perm {unit : Bool} (hf : Orderless f unit) {as bs : List Bool}
    (h : as.Perm bs) : combineTick f as = combineTick f bs := by
  have hfold (c : Bool) (cs : List Bool) : combineTick f (c :: cs) = (c :: cs).foldl f unit := by
    rw [combineTick, foldl_cons, hf.start]
  have : Std.Commutative f := ⟨hf.comm⟩
  have : Std.Associative f := ⟨hf.assoc⟩
  cases as with
  | nil => rw [nil_perm.1 h]
  | cons a as =>
    cases bs with
    | nil => exact absurd h not_perm_cons_nil
    | cons b bs => rw [hfold, hfold, h.foldl_op_eq]

theorem Orderless.combine_perm {unit : Bool} (hf : Orderless f unit) {yss : List Flags}
    (h : xss.Perm yss) : combine f xss = combine f yss := by
  have hlength : (combine f xss).length = (combine f yss).length := by
    rw [length_combine, length_combine, (h.map length).foldl_op_eq]
  refine ext_getElem hlength fun k hk hk' => ?_
  rw [← getD_eq_getElem _ false hk, ← getD_eq_getElem _ false hk', getD_combine hf.idle,
    getD_combine hf.idle, hf.combineTick_perm (h.map _)]

end Flags

namespace Script

open Outcome

variable {σ : Type} {host : Host σ} {m : Machine σ} {p : Prim} {f : Bool → Bool → Bool}

inductive Connects : Prim → (Bool → Bool → Bool) → Prop
  | and : Connects .and (· && ·)
  | or : Connects .or (· || ·)
  | xor : Connects .xor (· ^^ ·)

theorem Connects.orderless (hp : Connects p f) : ∃ unit, Orderless f unit := by
  cases hp with
  | and => exact ⟨true, by decide, by decide, by decide, by decide⟩
  | or => exact ⟨false, by decide, by decide, by decide, by decide⟩
  | xor => exact ⟨false, by decide, by decide, by decide, by decide⟩

theorem flagLists_flags (xss : List Flags) : flagLists (xss.map .flags) = xss := by
  induction xss with
  | nil => rfl
  | cons xs xss ih => simp [flagLists]

theorem foldlM_zipWith (xss : List Flags) (xs : Flags) :
    xss.foldlM (fun a b => (.ok (Flags.zipWith f a b) : Except Fault Flags)) xs =
      .ok (xss.foldl (Flags.zipWith f) xs) := by
  induction xss generalizing xs with
  | nil => rfl
  | cons ys xss ih => exact ih _

theorem connective_flags (name : String) (least : Nat) {xss : List Flags} (htwo : 2 ≤ xss.length) :
    connective name least f (xss.map .flags) = .ok (.flags (combine f xss)) := by
  have hcheck : Signature.check ⟨name, .atLeast 2, [.flags]⟩ (xss.map .flags) = .ok () := by
    refine Signature.check_eq_ok.2 ⟨?_, meets_single.2 ?_⟩
    · simpa [Arity.admits] using htwo
    · simp [Value.satisfies]
  cases xss with
  | nil => simp at htwo
  | cons xs xss =>
    change (do
      Signature.check ⟨name, .atLeast 2, [.flags]⟩ ((xs :: xss).map .flags)
      return Value.flags (← reduce (fun a b => .ok (Flags.zipWith f a b))
        (flagLists ((xs :: xss).map .flags)))) = _
    rw [hcheck, flagLists_flags, reduce, foldlM_zipWith]
    rfl

theorem Connects.spec (hp : Connects p f) : p ≠ .display ∧
    (∃ least ≤ 2, p.signature.arity = .atLeast least) ∧ p.signature.contracts = [] ∧
    ∃ name least, p.run = connective name least f := by
  cases hp with
  | and => exact ⟨by decide, ⟨1, by decide, rfl⟩, rfl, "and", 1, rfl⟩
  | or => exact ⟨by decide, ⟨1, by decide, rfl⟩, rfl, "or", 1, rfl⟩
  | xor => exact ⟨by decide, ⟨2, by decide, rfl⟩, rfl, "xor", 2, rfl⟩

theorem meets_nil (vs : List Value) : meets [] vs := by cases vs <;> rfl

theorem Connects.call_flags (hp : Connects p f) {xss : List Flags} (htwo : 2 ≤ xss.length) :
    Run.call host p (xss.map .flags) m = .ok (.flags (combine f xss)) m := by
  obtain ⟨hdisplay, ⟨least, hleast, harity⟩, hcontracts, name, bound, hrun⟩ := hp.spec
  refine Run.call_of_run (Signature.check_eq_ok.2 ⟨?_, ?_⟩) hdisplay ?_
  · simpa [harity, Arity.admits] using hleast.trans htwo
  · rw [hcontracts]
    exact meets_nil _
  · rw [hrun, connective_flags name bound htwo]

end Script

open Outcome

theorem Outcome.mapM_return {ε σ α β γ : Type} (f : α → EStateM ε σ β) (g : β → γ) (xs : List α) :
    (xs.mapM fun x => do return g (← f x)) = do return (← xs.mapM f).map g := by
  induction xs with
  | nil => rfl
  | cons x xs ih => simp only [mapM_cons, ih, bind_assoc, pure_bind, map_cons]

theorem Method.read_all_streams : audioSchema.read .none false "stream=all" =
    .ok [("threshold", .number (.float 0.04)), ("stream", .text "all")] := by
  have hdefaults : audioSchema.defaults .none false =
      .ok [("threshold", some (.number (.float 0.04))), ("stream", some (.number 0))] := rfl
  have hcomma : parts ',' "stream=all" = ["stream=all"] := by decide +kernel
  have hequals : parts '=' "stream=all" = ["stream", "all"] := by decide +kernel
  rw [Schema.read, hcomma, hdefaults, ok_bind, if_neg (by decide)]
  refine bind_eq_ok.2
    ⟨[("threshold", some (.number (.float 0.04))), ("stream", some (.text "all"))], ?_, rfl⟩
  exact Schema.readParts_named hequals
    (b := ⟨"stream", ["track"], .stream, some (.number 0)⟩) rfl

namespace Setup

def allLevels (s : Setup) : Session (List Levels) :=
  (range s.src.audios.length).mapM fun (k : Nat) => s.loudness k

theorem loudInAny_eq {s : Setup} (h : s.src.audios ≠ []) (threshold : Number) :
    s.loudInAny threshold = do
      return combine (· || ·) ((← s.allLevels).map (atLeast threshold)) := by
  rw [loudInAny, mapM_return, bind_assoc]
  funext w
  cases hlevels : s.allLevels w with
  | error e w' => rw [run_bind_of_error hlevels]; exact run_bind_of_error hlevels
  | ok ls w' =>
    have hlength := (forall_of_run_mapM (P := fun _ => True) (fun _ _ _ _ _ => trivial) hlevels).1
    rw [length_range] at hlength
    rw [run_bind_of_ok hlevels]
    refine (run_bind_of_ok hlevels).trans ?_
    cases ls with
    | nil => exact absurd (length_eq_zero_iff.1 hlength.symm) h
    | cons l ls => rfl

theorem flags_audio_all {s : Setup} {attrs : String} {vs : Values} (h : s.src.audios ≠ [])
    (hattrs : ':' ∉ attrs.toList) (hread : audioSchema.read .none false attrs = .ok vs)
    (hall : vs.lookup "stream" = some (.text "all")) :
    s.flags ("audio:" ++ attrs) = do
      return combine (· || ·) ((← s.allLevels).map (atLeast (thresholdOf vs))) := by
  have hparts : parts ':' ("audio:" ++ attrs) = ["audio", attrs] :=
    parts_pair (a := "audio") (by decide) hattrs
  rw [← loudInAny_eq h, flags, hparts]
  change s.audioFlags attrs = _
  rw [audioFlags, hread, Console.check_ok, pure_bind, hall]

end Setup

open Script in
/-- Each connective takes two or more lists of flags of any lengths to one that is as long as the
longest, holds at each tick the connective of all the lists' ticks, with false for a list that has
ended, and is the same for every order of the lists. Looking for sound in all streams is the
disjunction of the streams' levels by the same fold. -/
theorem connectives_orderless {σ : Type} (host : Host σ) (m : Machine σ) {p : Prim}
    {f : Bool → Bool → Bool} (hp : Connects p f) {xss : List Flags} (htwo : 2 ≤ xss.length) :
    Run.call host p (xss.map .flags) m = .ok (.flags (combine f xss)) m ∧
    (xss.map length).max? = some (combine f xss).length ∧
    (∀ k : Nat, k < (combine f xss).length →
      (combine f xss)[k]? = some (combineTick f (xss.map (·.getD k false)))) ∧
    (∀ yss : List Flags, yss.Perm xss →
      Run.call host p (yss.map .flags) m = .ok (.flags (combine f xss)) m) ∧
    ∀ (s : Setup) (attrs : String) (vs : Values), s.src.audios ≠ [] → ':' ∉ attrs.toList →
      audioSchema.read .none false attrs = .ok vs →
      vs.lookup "stream" = some (.text "all") →
      s.flags ("audio:" ++ attrs) = do
        return combine (· || ·)
          ((← s.allLevels).map (atLeast (thresholdOf vs))) := by
  obtain ⟨unit, hf⟩ := hp.orderless
  have hne : xss ≠ [] := by
    rintro rfl
    simp at htwo
  refine ⟨hp.call_flags htwo, max?_length hne, fun k hk => getElem?_combine hf.idle hk,
    fun yss hperm => ?_, fun s attrs vs haudio hattrs hread hall =>
      Setup.flags_audio_all haudio hattrs hread hall⟩
  rw [hp.call_flags (hperm.length_eq ▸ htwo), hf.combine_perm hperm]

def twoStreams : Setup where
  src :=
    { path := "a.wav", label := "0", bitrate := .null, duration := .null, description := .null,
      videos := [], subtitles := [],
      audios := [⟨"pcm_s16le", 48000, none, .null, .null⟩, ⟨"pcm_s16le", 48000, none, .null, .null⟩] }
  extractor := ⟨⟨"ffmpeg", "", false⟩, 48000, "/work/.tmp/t", .plain⟩
  strict := true
  tb := 30
  bar := Bar.hidden
  temp := "/work/.tmp/t"
  console := .plain

open Script in
theorem connectives_orderless_xor :
    Run.call mute .xor ([[true, false, true], [true], [false, true]].map .flags) ⟨[], ()⟩ =
      .ok (.flags [false, true, true]) ⟨[], ()⟩ ∧
    Run.call mute .xor ([[true], [false, true], [true, false, true]].map .flags) ⟨[], ()⟩ =
      .ok (.flags [false, true, true]) ⟨[], ()⟩ ∧
    twoStreams.flags "audio:stream=all" = do
      return combine (· || ·)
        ((← twoStreams.allLevels).map (atLeast (.float 0.04))) := by
  have htwo : 2 ≤ [[true, false, true], [true], [false, true]].length := by decide
  obtain ⟨hcall, -, -, hperm, haudio⟩ := connectives_orderless mute ⟨[], ()⟩ .xor htwo
  have hall := haudio twoStreams "stream=all" _ (by simp [twoStreams]) (by decide)
    read_all_streams rfl
  rw [show "audio:" ++ "stream=all" = "audio:stream=all" by decide] at hall
  exact ⟨hcall, hperm _ (by decide), hall⟩

end Jumpcut
