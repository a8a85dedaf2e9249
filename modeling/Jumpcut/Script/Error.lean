namespace Jumpcut.Script

inductive Arity : Type
  | exactly : Nat → Arity
  | atLeast : Nat → Arity
  | between : Nat → Nat → Arity
  deriving DecidableEq, Repr

def Arity.admits : Arity → Nat → Bool
  | .exactly k, n => n == k
  | .atLeast k, n => k ≤ n
  | .between lo hi, n => lo ≤ n && n ≤ hi

def Arity.describe : Arity → String
  | .exactly k => toString k
  | .atLeast k => "at least " ++ toString k
  | .between lo hi => "between " ++ toString lo ++ " and " ++ toString hi

inductive Contract : Type
  | boolean | flags | number | real | exactInteger | integer | string | char | pair | iterable
  deriving DecidableEq, Repr

def Contract.name : Contract → String
  | .boolean => "boolean?"
  | .flags => "boolarr?"
  | .number => "number?"
  | .real => "real?"
  | .exactInteger => "exact-integer?"
  | .integer => "integer?"
  | .string => "string?"
  | .char => "char?"
  | .pair => "pair?"
  | .iterable => "iterable?"

inductive Error : Type
  | unexpectedEnd
  | badEscape : Char → Error
  | charExpected
  | unknownHash : String → Error
  | unknownQuote : String → Error
  | illegalSymbol : String → Error
  | undefined : String → Error
  | noInput
  | arity : (name : String) → Arity → (got : Nat) → Error
  | contract : (name : String) → List Contract → Error
  | notCondition : (form : String) → Error
  | notSymbol : (node : String) → Error
  | setUndefined : String → Error
  | notProcedure : (value : String) → Error
  | notInvertible | divisionByZero
  | stringIndex : Int → Error
  | listIndex : Int → Error
  | notList | improperList
  | raised : String → Error
  deriving DecidableEq, Repr

def Error.message : Error → String
  | .unexpectedEnd => "Unexpected EOF"
  | .badEscape c => "Unexpected character " ++ c.toString ++ " during escape sequence"
  | .charExpected => "Expected a character after #\\"
  | .unknownHash s => "Unknown hash literal: " ++ s
  | .unknownQuote s => "Unknown quote literal: " ++ s
  | .illegalSymbol s => "Symbol has illegal character(s): " ++ s
  | .undefined s => s ++ " is undefined"
  | .noInput => "Can't use edit methods if there's no input files"
  | .arity name a got =>
    name ++ ": Arity mismatch. Expected " ++ a.describe ++ ", got " ++ toString got
  | .contract name cs => name ++ " expects: " ++ " ".intercalate (cs.map Contract.name)
  | .notCondition form => form ++ ": test-expr arg must be: boolean?"
  | .notSymbol node => "Variable must be set with a symbol, got " ++ node
  | .setUndefined s => "Cannot set variable " ++ s ++ " before definition"
  | .notProcedure v => v ++ ", expected procedure"
  | .notInvertible => "not expects: boolean? or boolarr?"
  | .divisionByZero => "division by zero"
  | .stringIndex i => "string index " ++ toString i ++ " is out of range"
  | .listIndex i => toString i ++ ": Invalid index"
  | .notList => "list-ref: 1st arg must be a list"
  | .improperList => "length expects: list?"
  | .raised s => s

end Jumpcut.Script
