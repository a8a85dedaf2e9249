import Jumpcut.Script.Syntax
import Jumpcut.Script.Value
import Jumpcut.Text.Case

namespace Jumpcut.Script

def refuse {α : Type} (e : Error) : Except Fault α := .error (.script e)

def meets : List Contract → List Value → Bool
  | _, [] => true
  | [], _ => true
  | [c], v :: vs => v.satisfies c && meets [c] vs
  | c :: cs, v :: vs => v.satisfies c && meets cs vs

def Arity.ofBounds (lower : Nat) : (upper : Option Nat) → Except Fault Arity
  | none => .ok (.atLeast lower)
  | some upper =>
    if upper < lower then .error (.refused .arityBounds)
    else if lower = upper then .ok (.exactly lower)
    else .ok (.between lower upper)

def Arity.check (a : Arity) (name : String) (got : Nat) : Except Fault Unit :=
  if a.admits got then .ok () else refuse (.arity name a got)

def Signature.check (s : Signature) (args : List Value) : Except Fault Unit := do
  s.arity.check s.name args.length
  if !meets s.contracts args then refuse (.contract s.name s.contracts)
  else .ok ()

def numbers (args : List Value) : List Number := args.filterMap Value.number?

def flagLists : List Value → List Flags :=
  List.filterMap fun
    | .flags xs => some xs
    | _ => none

def truths : List Value → List Bool :=
  List.filterMap fun
    | .bool b => some b
    | _ => none

def reduce {α : Type} (f : α → α → Except Fault α) : List α → Except Fault α
  | [] => .error .wrongKind
  | x :: xs => xs.foldlM f x

def connective (name : String) (least : Nat) (f : Bool → Bool → Bool) (args : List Value) :
    Except Fault Value := do
  match args with
  | .flags _ :: _ =>
    Signature.check ⟨name, .atLeast 2, [.flags]⟩ args
    return .flags (← reduce (fun a b => .ok (Flags.zipWith f a b)) (flagLists args))
  | _ =>
    Signature.check ⟨name, .atLeast least, [.boolean]⟩ args
    return .bool (← reduce (fun a b => .ok (f a b)) (truths args))

def isInexactNumber : Number → Bool
  | .float _ => true
  | .complex _ _ => true
  | _ => false

def divide (xs : List Number) : Except Fault Number :=
  let xs := match xs with
    | [x] => [.int 1, x]
    | xs => xs
  let exact (x y : Number) : Except Fault Number :=
    match x.toRat?, y.toRat? with
    | some a, some b => if b = 0 then refuse .divisionByZero else .ok (.frac (a / b))
    | _, _ => .error .wrongKind
  let inexact (x y : Number) : Except Fault Number :=
    match x.div y with
    | .error .divisionByZero => refuse .divisionByZero
    | r => r
  if xs.any isInexactNumber then reduce inexact xs
  else do
    match ← reduce exact xs with
    | .frac q => return Number.simplify q
    | x => return x

def keepingKind (f : Number → Except Fault Int) (x : Number) : Except Fault Value := do
  let n ← f x
  match x with
  | .float _ => return .num (.float (← Number.nearestFloat n))
  | _ => return .num (.int n)

def best (better : Number → Number → Bool) : List Number → Except Fault Value
  | [] => .error .badValue
  | x :: xs => .ok (.num (xs.foldl (fun m y => if better y m then y else m) x))

def exactly (f : Number → Except Fault Int) (x : Number) : Except Fault Value := do
  return .num (.int (← f x))

def charAt (s : String) (i : Int) : Except Fault Value :=
  let cs := s.toList
  let k := if i < 0 then i + cs.length else i
  if 0 ≤ k then
    match cs[k.toNat]? with
    | some c => .ok (.char c)
    | none => .error (Value.naming i .stringIndex)
  else .error (Value.naming i .stringIndex)

def textOf : Value → String
  | .str s => s
  | .char c => c.toString
  | _ => ""

def widen (args : List Value) : Except Fault Value := do
  let args := match args with
    | [a, b, .none] => [a, b]
    | args => args
  match args with
  | [a, b] => Signature.check ⟨"margin", .exactly 2, [.exactInteger, .flags]⟩ [a, b]
  | args =>
    Signature.check ⟨"margin", .exactly 3, [.exactInteger, .exactInteger, .flags]⟩ args
  match args with
  | [.num (.int m), .flags xs] => return .flags (Flags.margin m m xs)
  | [.num (.int s), .num (.int e), .flags xs] => return .flags (Flags.margin s e xs)
  | _ => .error .wrongKind

def unary (f : Value → Except Fault Value) : List Value → Except Fault Value
  | [v] => f v
  | _ => .error .wrongKind

def binary (f : Value → Value → Except Fault Value) : List Value → Except Fault Value
  | [v, w] => f v w
  | _ => .error .wrongKind

def predicate (f : Value → Bool) : List Value → Except Fault Value :=
  unary fun v => .ok (.bool (f v))

def onNumber (f : Number → Except Fault Value) : List Value → Except Fault Value :=
  unary fun
    | .num x => f x
    | _ => .error .wrongKind

def onNumbers (f : Number → Number → Except Fault Value) : List Value → Except Fault Value :=
  binary fun
    | .num a, .num b => f a b
    | _, _ => .error .wrongKind

def comparison (f : Number → Number → Bool) : List Value → Except Fault Value :=
  onNumbers fun a b => .ok (.bool (f a b))

def onText (f : String → Except Fault Value) : List Value → Except Fault Value :=
  unary fun
    | .str s => f s
    | _ => .error .wrongKind

def onPair (f : Value → Value → Except Fault Value) : List Value → Except Fault Value :=
  unary fun
    | .pair a d => f a d
    | _ => .error .wrongKind

def invert : Value → Except Fault Value
  | .bool b => .ok (.bool !b)
  | .flags xs => .ok (.flags (xs.map (!·)))
  | _ => refuse .notInvertible

def allEqual : List Number → Bool
  | [] => true
  | x :: xs => xs.all (x.eqv ·)

def listRef : Value → Value → Except Fault Value
  | .pair a d, .num (.int k) =>
    if k < 0 then .error (Value.naming k .listIndex) else Value.item a d k.toNat
  | _, _ => .error .wrongKind

def stringRef : Value → Value → Except Fault Value
  | .str s, .num (.int k) => charAt s k
  | _, _ => .error .wrongKind

def lengthOf : Value → Except Fault Value
  | .flags xs => .ok (.num (.int xs.length))
  | v =>
    match v.length? with
    | some n => .ok (.num (.int n))
    | none => refuse .improperList

def numberText : Number → Except Fault Value
  | .complex re im => .ok (.str (Value.complexText re im))
  | x => do return .str (← x.text)

def subtract : List Value → Except Fault Value
  | [.num x] => .ok (.num x.neg)
  | vs => do return .num (← reduce Number.sub (numbers vs))

def remainder (vs : List Value) : Except Fault Value :=
  match numbers vs with
  | [a, b] => do return .num (← a.mod b)
  | _ => .error .wrongKind

/-- The items of a copy of a value as an array. A value that is none has a copy without dimensions,
which cannot be gone through. -/
def items : Value → Except Fault Flags
  | .flags xs => .ok xs
  | _ => .error .wrongKind

/-- Takes the array before the limit, although scripts are asked for the limit first. -/
def removeShort (v w : Bool) (array limit : Value) : Except Fault Value := do
  let xs ← items array
  match limit with
  | .num (.int lim) => return .flags (Flags.dropShort v w lim xs)
  | _ => .error .wrongKind

def cook : List Value → Except Fault Value
  | [.num (.int cut), .num (.int clip), .flags xs] => .ok (.flags (Flags.cook clip cut xs))
  | _ => .error .wrongKind

def countNonzero : Value → Except Fault Value
  | .flags xs => .ok (.num (.int (xs.count true)))
  | _ => .error .wrongKind

def Prim.run (p : Prim) (vs : List Value) : Except Fault Value :=
  match p with
  | .sequence => .ok (vs.getLast?.getD .none)
  | .display => .ok .none
  | .exit => unary (fun v => .error (.exit v.exitCode)) vs
  | .error => onText (fun s => refuse (.raised s)) vs
  | .greater => comparison (fun a b => b.lt a) vs
  | .greaterEqual => comparison (fun a b => b.le a) vs
  | .less => comparison Number.lt vs
  | .lessEqual => comparison Number.le vs
  | .numEqual => .ok (.bool (allEqual (numbers vs)))
  | .not => unary invert vs
  | .and => connective "and" 1 (· && ·) vs
  | .or => connective "or" 1 (· || ·) vs
  | .xor => connective "xor" 2 (· ^^ ·) vs
  | .isEqual => binary Value.equal vs
  | .isList => predicate Value.isList vs
  | .isPair => predicate (·.satisfies .pair) vs
  | .isNull => predicate Value.isNull vs
  | .isNumber => predicate (·.satisfies .number) vs
  | .isExact => predicate Value.isExact vs
  | .isInexact => predicate (!·.isExact) vs
  | .isReal => predicate (·.satisfies .real) vs
  | .isInteger => predicate (·.satisfies .integer) vs
  | .isExactInteger => predicate (·.satisfies .exactInteger) vs
  | .isPositive => onNumber (fun x => .ok (.bool (Number.lt 0 x))) vs
  | .isNegative => onNumber (fun x => .ok (.bool (x.lt 0))) vs
  | .isZero => onNumber (fun x => .ok (.bool (x.eqv 0))) vs
  | .isBoolean => predicate (·.satisfies .boolean) vs
  | .isString => predicate (·.satisfies .string) vs
  | .isChar => predicate (·.satisfies .char) vs
  | .cons => binary (fun a d => .ok (.pair a d)) vs
  | .car => onPair (fun a _ => .ok a) vs
  | .cdr => onPair (fun _ d => .ok d) vs
  | .list => .ok (Value.ofList vs)
  | .listRef => binary Script.listRef vs
  | .length => unary lengthOf vs
  | .string => .ok (.str (String.join (vs.map textOf)))
  | .stringAppend => .ok (.str (String.join (vs.map textOf)))
  | .stringUpcase => onText (fun s => .ok (.str (Text.upper s))) vs
  | .stringDowncase => onText (fun s => .ok (.str (Text.lower s))) vs
  | .stringTitlecase => onText (fun s => .ok (.str (Text.title s))) vs
  | .stringLength => onText (fun s => .ok (.num (.int s.length))) vs
  | .stringRef => binary Script.stringRef vs
  | .numberToString => onNumber numberText vs
  | .add => do return .num (← (numbers vs).foldlM Number.add (.int 0))
  | .sub => subtract vs
  | .mul => do return .num (← (numbers vs).foldlM Number.mul (.int 1))
  | .div => do return .num (← divide (numbers vs))
  | .add1 => onNumber (fun x => do return .num (← x.add 1)) vs
  | .sub1 => onNumber (fun x => do return .num (← x.sub 1)) vs
  | .expt => onNumbers (fun a b => do return .num (← a.pow b)) vs
  | .sqrt => onNumber (fun x => do return .num (← x.sqrt)) vs
  | .mod => remainder vs
  | .modulo => remainder vs
  | .realPart => onNumber (fun x => .ok (.num x.realPart)) vs
  | .imagPart => onNumber (fun x => .ok (.num x.imagPart)) vs
  | .abs => onNumber (fun x => .ok (.num x.abs)) vs
  | .ceil => onNumber (keepingKind Number.ceil) vs
  | .ceiling => onNumber (keepingKind Number.ceil) vs
  | .exactCeil => onNumber (exactly Number.ceil) vs
  | .exactCeiling => onNumber (exactly Number.ceil) vs
  | .floor => onNumber (keepingKind Number.floor) vs
  | .exactFloor => onNumber (exactly Number.floor) vs
  | .round => onNumber (keepingKind Number.round) vs
  | .exactRound => onNumber (exactly Number.round) vs
  | .max => best (fun y m => m.lt y) (numbers vs)
  | .min => best (fun y m => y.lt m) (numbers vs)
  | .margin => widen vs
  | .mincut => binary (removeShort false true) vs
  | .minclip => binary (removeShort true false) vs
  | .cook => Script.cook vs
  | .boolarr => .ok (.flags ((numbers vs).map fun x => !x.eqv 0))
  | .countNonzero => unary Script.countNonzero vs
  | .isBoolarr => predicate (·.satisfies .flags) vs

abbrev Scope := List (String × Value)

namespace Scope

def get? (s : Scope) (name : String) : Option Value := s.lookup name

def set (s : Scope) (name : String) (v : Value) : Scope :=
  (name, v) :: s.filter (·.1 != name)

end Scope

def pi : Float := 3.141592653589793

def Scope.initial : Scope :=
  [("true", .bool true), ("false", .bool false), ("null", .null), ("pi", .num (.float pi)),
    ("mcut", .proc .mincut), ("mclip", .proc .minclip)] ++
    Prim.all.map fun p => (p.name, .proc p)

/-- What surrounds a script: where its output goes, and how it gets at the flags of a medium. -/
structure Host (σ : Type) where
  write : String → σ → σ
  analyse : Option (String → EStateM Fault σ Flags)

structure Machine (σ : Type) where
  scope : Scope
  host : σ

abbrev Run (σ : Type) := EStateM Fault (Machine σ)

namespace Run

variable {σ : Type}

def ofExcept {α : Type} : Except Fault α → Run σ α
  | .ok a => pure a
  | .error e => throw e

def onHost {α : Type} (act : EStateM Fault σ α) : Run σ α := fun m =>
  match act m.host with
  | .ok a h => .ok a { m with host := h }
  | .error e h => .error e { m with host := h }

def define (name : String) (v : Value) : Run σ Unit :=
  modify fun m => { m with scope := m.scope.set name v }

def write (h : Host σ) (s : String) : Run σ Unit :=
  modify fun m => { m with host := h.write s m.host }

def lookup (name : String) : Run σ Value := do
  match (← get).scope.get? name with
  | some .none => throw (.script (.undefined name))
  | some v => return v
  | none => throw (.script (.undefined name))

def analyse (h : Host σ) (method : String) : Run σ Flags :=
  match h.analyse with
  | some f => onHost (f method)
  | none => throw (.script .noInput)

def call (h : Host σ) (p : Prim) (args : List Value) : Run σ Value := do
  ofExcept (p.signature.check args)
  match p, args with
  | .display, [.none] => return .none
  | .display, [.flags xs] =>
    write h xs.script
    return .none
  | .display, [v] =>
    write h (← ofExcept v.text)
    return .none
  | p, args => ofExcept (p.run args)

def checkForm (name : String) (n got : Nat) : Run σ Unit :=
  if got = n then pure () else throw (.script (.arity name (.exactly n) got))

def condition (form : String) : Value → Run σ Bool
  | .bool b => pure b
  | _ => throw (.script (.notCondition form))

def target (e : Expr) : Run σ String :=
  match e with
  | .var x => pure x
  | e => do throw (.script (.notSymbol (← ofExcept e.describe)))

def checkBound (form x : String) : Run σ Unit := do
  if form = "set!" ∧ ((← get).scope.get? x).isNone then throw (.script (.setUndefined x))

end Run

open Run in
mutual

def eval {σ : Type} (h : Host σ) : Expr → Run σ Value
  | .num x => pure (.num x)
  | .bool b => pure (.bool b)
  | .str s => pure (.str s)
  | .char c => pure (.char c)
  | .var x => lookup x
  | .method s => do return .flags (← analyse h s)
  | .apply (.var "if") args => do
    checkForm "if" 3 args.length
    match args with
    | [c, t, e] => if ← condition "if" (← eval h c) then eval h t else eval h e
    | _ => return .none
  | .apply (.var "when") args => do
    checkForm "when" 2 args.length
    match args with
    | [c, t] => if ← condition "when" (← eval h c) then eval h t else return .none
    | _ => return .none
  | .apply (.var "define") args => assign h "define" args
  | .apply (.var "set!") args => assign h "set!" args
  | .apply op args => do
    match ← eval h op with
    | .proc p => call h p (← evalAll h args)
    | v => throw (← Run.ofExcept v.notProcedure)

def assign {σ : Type} (h : Host σ) (form : String) (args : List Expr) : Run σ Value := do
  checkForm form 2 args.length
  match args with
  | [x, e] =>
    let x ← target x
    checkBound form x
    define x (← eval h e)
    return .none
  | _ => return .none

def evalAll {σ : Type} (h : Host σ) : List Expr → Run σ (List Value)
  | [] => pure []
  | e :: es => do
    let v ← eval h e
    return v :: (← evalAll h es)

end

def interpret {σ : Type} (h : Host σ) (text : String) : Run σ (List Value) := do
  evalAll h (← Run.ofExcept (read text))

end Jumpcut.Script
