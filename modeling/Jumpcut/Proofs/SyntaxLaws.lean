import Jumpcut.Proofs.OutcomeLaws
import Jumpcut.Script.Syntax

/-!
Which tokens the reader of edit scripts takes, and for what. `Reads` is its grammar and `Leads` says
what is open at a place between two tokens. The reader takes exactly what the grammar has
(`parse_eq_ok_iff`), and it gives every tree back that is written out in brackets.
-/
namespace Jumpcut.Script

open Reader List Outcome

/-- Tokens that are read as expressions, on their own or between two brackets. Between brackets, a
closing one of another kind begins an application that ends where the next closing one stands. -/
inductive Reads : (around : Option Bracket) → List Token → List Expr → Prop
  | nil : Reads none [] []
  | leaf {ts es t e} : Reads none ts es → t.leaf? = some e → Reads none (ts ++ [t]) (es ++ [e])
  | group {ts es b us op args} : Reads none ts es → Reads (some b) us (op :: args) →
      Reads none (ts ++ .opener b :: us ++ [.closer b]) (es ++ [.apply op args])
  | inside {ts es b} : Reads none ts es → Reads (some b) ts es
  | stray {ts es b c us op args} : c ≠ b → Reads (some b) ts es → Reads none us (op :: args) →
      Reads (some b) (ts ++ .closer c :: us) (es ++ [.apply op args])

inductive Leads : List Token → List Frame → Prop
  | top {ts is} : Reads none ts is.reverse → Leads ts [⟨.top, is⟩]
  | group {ts fs b us is} : Leads ts fs → Reads none us is.reverse →
      Leads (ts ++ .opener b :: us) (⟨.bracket b, is⟩ :: fs)
  | stray {ts fs b c us is vs js} : c ≠ b → Leads ts fs → Reads (some b) us is.reverse →
      Reads none vs js.reverse →
      Leads (ts ++ .opener b :: us ++ .closer c :: vs) (⟨.stray, js⟩ :: ⟨.bracket b, is⟩ :: fs)

inductive Halts (c : Bracket) : List Frame → Prop
  | top {is} : Halts c [⟨.top, is⟩]
  | empty {fs} : Halts c (⟨.bracket c, []⟩ :: fs)
  | stray {fs} : Halts c (⟨.stray, []⟩ :: fs)

/-- Where a reading ends well: behind the last token, or at a closing bracket that nothing opened. -/
def Ends (stop : Option Fault) (rest : List Token) : Prop :=
  rest = [] ∧ stop = none ∨ ∃ c tail, rest = .closer c :: tail

variable {ts us vs rest : List Token} {es is args : List Expr} {e op : Expr} {b c : Bracket}
  {f g : Frame} {fs : List Frame} {stop : Option Fault}

namespace Reader

theorem run_leaf {t : Token} (h : t.leaf? = some e) :
    run stop (t :: rest) fs = run stop rest (push e fs) := by
  cases t with
  | opener => cases h
  | closer => cases h
  | _ => cases h; rfl

theorem run_opener : run stop (.opener b :: rest) fs = run stop rest (⟨.bracket b, []⟩ :: fs) := rfl

theorem endStray_bracket : endStray (⟨.bracket b, is⟩ :: fs) = .ok (⟨.bracket b, is⟩ :: fs) := by
  cases fs with
  | nil => rfl
  | cons g fs => rw [endStray, if_neg (by simp)]

theorem endStray_stray (h : is.reverse = op :: args) :
    endStray (⟨.stray, is⟩ :: g :: fs) = .ok (g.push (.apply op args) :: fs) := by
  rw [endStray, if_pos rfl, Frame.close, h]
  rfl

theorem run_closer_of_ne (h : c ≠ b) :
    run stop (.closer c :: rest) (⟨.bracket b, is⟩ :: fs) =
      run stop rest (⟨.stray, []⟩ :: ⟨.bracket b, is⟩ :: fs) := by
  change (endStray _ >>= _) = _
  rw [endStray_bracket]
  exact if_neg h

theorem run_closer_group (h : is.reverse = op :: args) :
    run stop (.closer b :: rest) (⟨.bracket b, is⟩ :: fs) =
      run stop rest (push (.apply op args) fs) := by
  have hclose : Frame.close ⟨.bracket b, is⟩ = .ok (.apply op args) := by rw [Frame.close, h]
  change (endStray _ >>= _) = _
  simp only [endStray_bracket, ok_bind, if_true, hclose]
  -- A fault that lies right behind the bracket is met whether the application is made or not.
  split
  · rfl
  · rfl

theorem run_closer_empty (h : rest ≠ [] ∨ stop = none) :
    run stop (.closer b :: rest) (⟨.bracket b, []⟩ :: fs) = .error .outOfRange := by
  change (endStray _ >>= _) = _
  simp only [endStray_bracket, ok_bind, if_true]
  split
  · simp at h
  · rfl

theorem run_closer_empty_stop {e : Fault} :
    run (some e) [.closer b] (⟨.bracket b, []⟩ :: fs) = .error e := by
  change (endStray _ >>= _) = _
  simp only [endStray_bracket, ok_bind, if_true]

theorem run_closer_stray (h : is.reverse = op :: args) :
    run stop (.closer c :: rest) (⟨.stray, is⟩ :: ⟨.bracket b, es⟩ :: fs) =
      run stop (.closer c :: rest) (⟨.bracket b, .apply op args :: es⟩ :: fs) := by
  change (endStray _ >>= _) = (endStray _ >>= _)
  rw [endStray_stray h, endStray_bracket]
  rfl

end Reader

namespace Reads

theorem single {t : Token} (h : t.leaf? = some e) : Reads none [t] [e] := .leaf .nil h

theorem append (h : Reads none ts es) (h' : Reads none us is) :
    Reads none (ts ++ us) (es ++ is) := by
  generalize hk : (none : Option Bracket) = k at h'
  induction h' with
  | nil => simpa using h
  | leaf _ hleaf ih =>
    rw [← append_assoc, ← append_assoc]
    exact .leaf (ih hk) hleaf
  | group _ hin ih _ =>
    have hgroup := Reads.group (ih hk) hin
    simpa only [append_assoc, cons_append] using hgroup
  | inside => cases hk
  | stray => cases hk

/-- How the reader goes through such tokens: it keeps the expressions in its innermost frame. -/
def Passes : (around : Option Bracket) → List Token → List Expr → Prop
  | none, ts, es => ∀ stop rest f fs,
      run stop (ts ++ rest) (f :: fs) = run stop rest (⟨f.kind, es.reverse ++ f.items⟩ :: fs)
  | some b, ts, es => ∀ stop c rest fs,
      run stop (ts ++ .closer c :: rest) (⟨.bracket b, []⟩ :: fs) =
        run stop (.closer c :: rest) (⟨.bracket b, es.reverse⟩ :: fs)

theorem passes {around : Option Bracket} (h : Reads around ts es) : Passes around ts es := by
  induction h with
  | nil =>
    intro stop rest f fs
    rfl
  | leaf _ hleaf ih =>
    intro stop rest f fs
    rw [append_assoc, ih, singleton_append, run_leaf hleaf]
    simp [push, Frame.push]
  | group _ _ ih ihin =>
    intro stop rest f fs
    rw [append_assoc, append_assoc, ih, cons_append, run_opener, singleton_append,
      ihin, run_closer_group (reverse_reverse _)]
    simp [push, Frame.push]
  | inside _ ih =>
    intro stop c rest fs
    rw [ih, append_nil]
  | stray hne _ _ ih ihus =>
    intro stop d rest fs
    rw [append_assoc, cons_append, ih, run_closer_of_ne hne, ihus, append_nil,
      run_closer_stray (reverse_reverse _), reverse_append]
    rfl

end Reads

namespace Leads

theorem start : Leads [] [⟨.top, []⟩] := .top .nil

theorem run_append (h : Leads ts fs) (stop : Option Fault) (rest : List Token) :
    run stop (ts ++ rest) [⟨.top, []⟩] = run stop rest fs := by
  induction h generalizing rest with
  | top hr => simpa using hr.passes stop rest ⟨.top, []⟩ []
  | group _ hr ih =>
    rw [append_assoc, ih, cons_append, run_opener, hr.passes, reverse_reverse,
      append_nil]
  | stray hne _ hin hr ih =>
    rw [append_assoc, append_assoc, ih, cons_append, run_opener, cons_append,
      hin.passes, run_closer_of_ne hne, hr.passes, reverse_reverse, reverse_reverse,
      append_nil]

theorem push (h : Leads ts fs) (hr : Reads none us [e]) : Leads (ts ++ us) (push e fs) := by
  have hsnoc {vs : List Token} {is : List Expr} (hvs : Reads none vs is.reverse) :
      Reads none (vs ++ us) (e :: is).reverse := by
    rw [reverse_cons]
    exact hvs.append hr
  cases h with
  | top hts => exact .top (hsnoc hts)
  | group hlead hus =>
    rw [append_assoc, cons_append]
    exact .group hlead (hsnoc hus)
  | stray hne hlead hin hvs =>
    rw [append_assoc, cons_append]
    exact .stray hne hlead hin (hsnoc hvs)

theorem opened (h : Leads ts fs) (b : Bracket) :
    Leads (ts ++ [.opener b]) (⟨.bracket b, []⟩ :: fs) := .group h .nil

theorem strayed (hne : c ≠ b) (h : Leads ts fs) (hin : Reads (some b) us is.reverse) :
    Leads (ts ++ .opener b :: us ++ [.closer c]) (⟨.stray, []⟩ :: ⟨.bracket b, is⟩ :: fs) :=
  .stray hne h hin .nil

theorem step_closer (h : Leads ts fs) (hin : Reads (some b) us is.reverse)
    (his : is.reverse = op :: args) (c : Bracket) :
    ∃ gs, Leads (ts ++ .opener b :: us ++ [.closer c]) gs ∧ ∀ stop rest,
      run stop (.closer c :: rest) (⟨.bracket b, is⟩ :: fs) = run stop rest gs := by
  by_cases hc : c = b
  · subst hc
    have hgroup := h.push (.group .nil (his ▸ hin))
    rw [append_assoc]
    exact ⟨_, hgroup, fun stop rest => run_closer_group his⟩
  · exact ⟨_, strayed hc h hin, fun stop rest => run_closer_of_ne hc⟩

theorem step (h : Leads ts fs) (t : Token) :
    (∃ gs, Leads (ts ++ [t]) gs ∧ ∀ stop rest, run stop (t :: rest) fs = run stop rest gs) ∨
      ∃ c, t = .closer c ∧ Halts c fs := by
  cases ht : t.leaf? with
  | some e => exact .inl ⟨_, h.push (.single ht), fun stop rest => run_leaf ht⟩
  | none =>
    cases t with
    | opener b => exact .inl ⟨_, h.opened b, fun stop rest => rfl⟩
    | closer c =>
      cases h with
      | top => exact .inr ⟨c, rfl, .top⟩
      | @group _ _ b us is hlead hus =>
        cases hrev : is.reverse with
        | nil =>
          rw [reverse_eq_nil_iff] at hrev
          subst hrev
          by_cases hc : c = b
          · subst hc
            exact .inr ⟨c, rfl, .empty⟩
          · exact .inl ⟨_, strayed hc hlead (.inside hus), fun stop rest => run_closer_of_ne hc⟩
        | cons op args => exact .inl (hlead.step_closer (.inside hus) hrev c)
      | @stray _ _ b d us is vs js hne hlead hin hvs =>
        cases hrev : js.reverse with
        | nil =>
          rw [reverse_eq_nil_iff] at hrev
          subst hrev
          exact .inr ⟨c, rfl, .stray⟩
        | cons op args =>
          have hin' : Reads (some b) (us ++ .closer d :: vs) (.apply op args :: is).reverse := by
            rw [reverse_cons]
            exact .stray hne hin (hrev ▸ hvs)
          have hne' : (Expr.apply op args :: is).reverse ≠ [] := by simp
          obtain ⟨op', args', his⟩ := exists_cons_of_ne_nil hne'
          obtain ⟨gs, hgs, hrun⟩ := hlead.step_closer hin' his c
          refine .inl ⟨gs, ?_, fun stop rest => ?_⟩
          · simpa only [append_assoc, cons_append] using hgs
          · rw [run_closer_stray hrev, hrun]
    | _ => cases ht

theorem run_end (h : Leads ts fs) :
    (∃ is, fs = [⟨.top, is⟩]) ∨ (∃ gs, fs = ⟨.stray, []⟩ :: gs) ∨
      run none [] fs = .error (.script .unexpectedEnd) := by
  cases h with
  | top => exact .inl ⟨_, rfl⟩
  | group =>
    refine .inr (.inr ?_)
    change (endStray _ >>= _) = _
    rw [endStray_bracket]
    rfl
  | @stray _ _ b _ _ _ _ js =>
    cases hrev : js.reverse with
    | nil =>
      rw [reverse_eq_nil_iff] at hrev
      exact .inr (.inl ⟨_, by rw [hrev]⟩)
    | cons op args =>
      refine .inr (.inr ?_)
      change (endStray _ >>= _) = _
      rw [endStray_stray hrev]
      rfl

theorem reads (h : Leads ts [⟨.top, is⟩]) : Reads none ts is.reverse := by
  cases h
  assumption

theorem run_sound {left : List Token} (h : Leads ts fs) (hrun : run stop rest fs = .ok (es, left)) :
    ∃ front, ts ++ rest = front ++ left ∧ Reads none front es ∧ Ends stop left := by
  induction rest generalizing ts fs with
  | nil =>
    cases stop with
    | some e => cases hrun
    | none =>
      rcases h.run_end with ⟨is, rfl⟩ | ⟨gs, rfl⟩ | hend
      · cases hrun
        exact ⟨ts, rfl, h.reads, .inl ⟨rfl, rfl⟩⟩
      · cases h with
        | stray => cases hrun
      · rw [hend] at hrun
        cases hrun
  | cons t rest ih =>
    rcases h.step t with ⟨gs, hgs, hstep⟩ | ⟨c, rfl, hhalt⟩
    · rw [hstep] at hrun
      obtain ⟨front, hfront, hreads⟩ := ih hgs hrun
      rw [append_assoc] at hfront
      exact ⟨front, hfront, hreads⟩
    · cases hhalt with
      | top =>
        cases hrun
        exact ⟨ts, rfl, h.reads, .inr ⟨c, rest, rfl⟩⟩
      | empty =>
        by_cases hend : rest ≠ [] ∨ stop = none
        · rw [run_closer_empty hend] at hrun
          cases hrun
        · simp only [not_or, not_not] at hend
          obtain ⟨e, he⟩ := Option.ne_none_iff_exists'.1 hend.2
          rw [hend.1, he, run_closer_empty_stop] at hrun
          cases hrun
      | stray =>
        cases h with
        | stray => cases hrun

end Leads

theorem parse_eq_ok_iff :
    (⟨ts, stop⟩ : Scan).parse = .ok (es, rest) ↔
      ∃ front, ts = front ++ rest ∧ Reads none front es ∧ Ends stop rest := by
  constructor
  · intro h
    exact Leads.start.run_sound h
  · rintro ⟨front, rfl, hreads, hend⟩
    have hlead : Leads front [⟨.top, es.reverse⟩] := .top (by rwa [reverse_reverse])
    rw [Scan.parse, hlead.run_append]
    rcases hend with ⟨rfl, rfl⟩ | ⟨c, tail, rfl⟩
    · change Except.ok _ = _
      rw [reverse_reverse]
    · change Except.ok _ = _
      rw [reverse_reverse]

/-- The brackets that are open behind some tokens, innermost first; `none` where a closing bracket is
not of the kind of the innermost open one. -/
def unclosed (bs : List Bracket) : List Token → Option (List Bracket)
  | [] => some bs
  | .opener b :: ts => unclosed (b :: bs) ts
  | .closer c :: ts => if bs.head? = some c then unclosed bs.tail ts else none
  | _ :: ts => unclosed bs ts

theorem unclosed_leaf {t : Token} (h : t.leaf? = some e) (bs : List Bracket) :
    unclosed bs (t :: ts) = unclosed bs ts := by
  cases t with
  | opener => cases h
  | closer => cases h
  | _ => rfl

theorem Reads.unclosed {around : Option Bracket} (h : Reads around ts es) :
    (∀ bs rest, unclosed (around.toList ++ bs) (ts ++ rest) = unclosed (around.toList ++ bs) rest) ∨
      ∀ bs rest, Script.unclosed (around.toList ++ bs) (ts ++ rest) = none := by
  induction h with
  | nil => exact .inl fun bs rest => rfl
  | leaf _ hleaf ih =>
    refine ih.imp (fun ih bs rest => ?_) (fun ih bs rest => ?_)
    · rw [append_assoc, ih, singleton_append, unclosed_leaf hleaf]
    · rw [append_assoc, ih]
  | @group _ _ b _ _ _ _ _ ih ihin =>
    rcases ih with ih | ih
    · refine ihin.imp (fun ihin bs rest => ?_) (fun ihin bs rest => ?_)
      · have hgroup := ihin bs (.closer b :: rest)
        rw [append_assoc, append_assoc, ih, cons_append, Script.unclosed]
        exact hgroup.trans (if_pos rfl)
      · rw [append_assoc, append_assoc, ih, cons_append, Script.unclosed]
        exact ihin bs _
    · refine .inr fun bs rest => ?_
      rw [append_assoc, append_assoc, ih]
  | @inside _ _ b _ ih =>
    exact ih.imp (fun ih bs rest => ih (b :: bs) rest) (fun ih bs rest => ih (b :: bs) rest)
  | @stray _ _ b c _ _ _ hne _ _ ih _ =>
    refine .inr fun bs rest => ?_
    rw [append_assoc]
    rcases ih with ih | ih
    · rw [ih]
      exact if_neg (by simpa using hne.symm)
    · exact ih bs _

theorem unclosed_iff_of_parse (h : (⟨ts, none⟩ : Scan).parse = .ok (es, rest)) :
    rest = [] ∧ unclosed [] ts = some [] ↔ unclosed [] ts ≠ none := by
  obtain ⟨front, rfl, hreads, hend⟩ := parse_eq_ok_iff.1 h
  constructor
  · rintro ⟨-, hclosed⟩
    rw [hclosed]
    simp
  · intro hmatch
    have hfront : unclosed [] (front ++ rest) = unclosed [] rest := by
      rcases hreads.unclosed with hbalanced | hclash
      · exact hbalanced [] rest
      · exact absurd (hclash [] rest) hmatch
    rcases hend with ⟨rfl, -⟩ | ⟨c, tail, rfl⟩
    · exact ⟨rfl, hfront⟩
    · exact absurd hfront hmatch

/-- The reader takes exactly the tokens of the grammar. It has read them all, and their brackets are
balanced, exactly if every closing bracket is of the kind of the innermost open one. -/
theorem parse_balanced_iff (ts : List Token) (es : List Expr) (rest : List Token) :
    ((⟨ts, none⟩ : Scan).parse = .ok (es, rest) ↔
      ∃ front, ts = front ++ rest ∧ Reads none front es ∧ Ends none rest) ∧
    ((⟨ts, none⟩ : Scan).parse = .ok (es, rest) →
      (rest = [] ∧ unclosed [] ts = some [] ↔ unclosed [] ts ≠ none)) :=
  ⟨parse_eq_ok_iff, unclosed_iff_of_parse⟩

theorem parse_balanced_iff_mixed :
    (⟨[.opener .round, .ident "+", .opener .square, .ident "x", .closer .square, .closer .round],
        none⟩ : Scan).parse = .ok ([.apply (.var "+") [.apply (.var "x") []]], []) ∧
      (([] : List Token) = [] ∧
          unclosed [] [.opener .round, .ident "+", .opener .square, .ident "x", .closer .square,
            .closer .round] = some [] ↔
        unclosed [] [.opener .round, .ident "+", .opener .square, .ident "x", .closer .square,
          .closer .round] ≠ none) := by
  have hparse : (⟨[.opener .round, .ident "+", .opener .square, .ident "x", .closer .square,
      .closer .round], none⟩ : Scan).parse = .ok ([.apply (.var "+") [.apply (.var "x") []]], []) :=
    rfl
  exact ⟨hparse, (parse_balanced_iff _ _ _).2 hparse⟩

theorem parse_unbalanced :
    (⟨[.num 1, .closer .round, .num 2], none⟩ : Scan).parse =
        .ok ([.num 1], [.closer .round, .num 2]) ∧
      (⟨[.opener .round, .ident "+", .num 1, .closer .square, .num 2, .closer .round], none⟩ :
        Scan).parse = .ok ([.apply (.var "+") [.num 1, .apply (.num 2) []]], []) ∧
      unclosed [] [.opener .round, .ident "+", .num 1, .closer .square, .num 2, .closer .round] =
        none :=
  ⟨rfl, rfl, rfl⟩

inductive Form : Type
  | var : String → Form
  | num : Number → Form
  | bool : Bool → Form
  | str : String → Form
  | char : Char → Form
  | method : String → Form
  | group : Bracket → (op : Form) → (args : List Form) → Form

namespace Form

mutual

def expr : Form → Expr
  | .var s => .var s
  | .num x => .num x
  | .bool b => .bool b
  | .str s => .str s
  | .char c => .char c
  | .method s => .method s
  | .group _ op args => .apply op.expr (exprs args)

def exprs : List Form → List Expr
  | [] => []
  | f :: fs => f.expr :: exprs fs

end

mutual

def tokens : Form → List Token
  | .var s => [.ident s]
  | .num x => [.num x]
  | .bool b => [.bool b]
  | .str s => [.str s]
  | .char c => [.char c]
  | .method s => [.method s]
  | .group b op args => .opener b :: op.tokens ++ tokensAll args ++ [.closer b]

def tokensAll : List Form → List Token
  | [] => []
  | f :: fs => f.tokens ++ tokensAll fs

end

mutual

theorem reads_tokens : (f : Form) → Reads none f.tokens [f.expr]
  | .var _ | .num _ | .bool _ | .str _ | .char _ | .method _ => .single rfl
  | .group b op args => by
    have hinside := (reads_tokens op).append (reads_tokensAll args)
    exact .group .nil (.inside hinside)

theorem reads_tokensAll : (fs : List Form) → Reads none (tokensAll fs) (exprs fs)
  | [] => .nil
  | f :: fs => (reads_tokens f).append (reads_tokensAll fs)

end

theorem parse_tokensAll (fs : List Form) :
    (⟨tokensAll fs, none⟩ : Scan).parse = .ok (exprs fs, []) := by
  refine parse_eq_ok_iff.2 ⟨tokensAll fs, ?_, reads_tokensAll fs, .inl ⟨rfl, rfl⟩⟩
  rw [List.append_nil]

end Form

end Jumpcut.Script
