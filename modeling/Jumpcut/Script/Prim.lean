import Jumpcut.Script.Error

namespace Jumpcut.Script

inductive Prim : Type
  | sequence | display | exit | error | greater | greaterEqual | less | lessEqual | numEqual | not
  | and | or | xor | isEqual | isList | isPair | isNull | isNumber | isExact | isInexact | isReal
  | isInteger | isExactInteger | isPositive | isNegative | isZero | isBoolean | isString | isChar
  | cons | car | cdr | list | listRef | length | string | stringAppend | stringUpcase
  | stringDowncase | stringTitlecase | stringLength | stringRef | numberToString | add | sub | mul
  | div | add1 | sub1 | expt | sqrt | mod | modulo | realPart | imagPart | abs | ceil | ceiling
  | exactCeil | exactCeiling | floor | exactFloor | round | exactRound | max | min | margin | mincut
  | minclip | cook | boolarr | countNonzero | isBoolarr
  deriving DecidableEq, Repr

/-- Name, number of arguments and kinds of argument of a procedure. The last kind holds for all
further arguments; no kinds means that anything goes. -/
structure Signature where
  name : String
  arity : Arity
  contracts : List Contract

namespace Prim

def signature : Prim → Signature
  | .sequence => ⟨"begin", .atLeast 0, []⟩
  | .display => ⟨"display", .exactly 1, []⟩
  | .exit => ⟨"exit", .atLeast 1, []⟩
  | .error => ⟨"error", .exactly 1, [.string]⟩
  | .greater => ⟨">", .exactly 2, [.real, .real]⟩
  | .greaterEqual => ⟨">=", .exactly 2, [.real, .real]⟩
  | .less => ⟨"<", .exactly 2, [.real, .real]⟩
  | .lessEqual => ⟨"<=", .exactly 2, [.real, .real]⟩
  | .numEqual => ⟨"=", .atLeast 1, [.number]⟩
  | .not => ⟨"not", .exactly 1, []⟩
  | .and => ⟨"and", .atLeast 1, []⟩
  | .or => ⟨"or", .atLeast 1, []⟩
  | .xor => ⟨"xor", .atLeast 2, []⟩
  | .isEqual => ⟨"equal?", .exactly 2, []⟩
  | .isList => ⟨"list?", .exactly 1, []⟩
  | .isPair => ⟨"pair?", .exactly 1, []⟩
  | .isNull => ⟨"null?", .exactly 1, []⟩
  | .isNumber => ⟨"number?", .exactly 1, []⟩
  | .isExact => ⟨"exact?", .exactly 1, []⟩
  | .isInexact => ⟨"inexact?", .exactly 1, []⟩
  | .isReal => ⟨"real?", .exactly 1, []⟩
  | .isInteger => ⟨"integer?", .exactly 1, []⟩
  | .isExactInteger => ⟨"exact-integer?", .exactly 1, []⟩
  | .isPositive => ⟨"positive?", .exactly 1, [.real]⟩
  | .isNegative => ⟨"negative?", .exactly 1, [.real]⟩
  | .isZero => ⟨"zero?", .exactly 1, [.real]⟩
  | .isBoolean => ⟨"boolean?", .exactly 1, []⟩
  | .isString => ⟨"string?", .exactly 1, []⟩
  | .isChar => ⟨"char?", .exactly 1, []⟩
  | .cons => ⟨"cons", .exactly 2, []⟩
  | .car => ⟨"car", .exactly 1, [.pair]⟩
  | .cdr => ⟨"cdr", .exactly 1, [.pair]⟩
  | .list => ⟨"list", .atLeast 0, []⟩
  | .listRef => ⟨"list-ref", .exactly 2, [.pair, .exactInteger]⟩
  | .length => ⟨"length", .exactly 1, [.iterable]⟩
  | .string => ⟨"string", .atLeast 0, [.char]⟩
  | .stringAppend => ⟨"string-append", .atLeast 0, [.string]⟩
  | .stringUpcase => ⟨"string-upcase", .exactly 1, [.string]⟩
  | .stringDowncase => ⟨"string-downcase", .exactly 1, [.string]⟩
  | .stringTitlecase => ⟨"string-titlecase", .exactly 1, [.string]⟩
  | .stringLength => ⟨"string-length", .exactly 1, [.string]⟩
  | .stringRef => ⟨"string-ref", .exactly 2, [.string, .exactInteger]⟩
  | .numberToString => ⟨"number->string", .exactly 1, [.number]⟩
  | .add => ⟨"+", .atLeast 0, [.number]⟩
  | .sub => ⟨"-", .atLeast 1, [.number]⟩
  | .mul => ⟨"*", .atLeast 0, [.number]⟩
  | .div => ⟨"/", .atLeast 1, [.number]⟩
  | .add1 => ⟨"add1", .exactly 1, [.number]⟩
  | .sub1 => ⟨"sub1", .exactly 1, [.number]⟩
  | .expt => ⟨"expt", .exactly 2, [.real]⟩
  | .sqrt => ⟨"sqrt", .exactly 1, [.number]⟩
  | .mod => ⟨"mod", .exactly 2, [.integer, .integer]⟩
  | .modulo => ⟨"modulo", .exactly 2, [.integer, .integer]⟩
  | .realPart => ⟨"real-part", .exactly 1, [.number]⟩
  | .imagPart => ⟨"imag-part", .exactly 1, [.number]⟩
  | .abs => ⟨"abs", .exactly 1, [.real]⟩
  | .ceil => ⟨"ceil", .exactly 1, [.real]⟩
  | .ceiling => ⟨"ceiling", .exactly 1, [.real]⟩
  | .exactCeil => ⟨"exact-ceil", .exactly 1, [.real]⟩
  | .exactCeiling => ⟨"exact-ceiling", .exactly 1, [.real]⟩
  | .floor => ⟨"floor", .exactly 1, [.real]⟩
  | .exactFloor => ⟨"exact-floor", .exactly 1, [.real]⟩
  | .round => ⟨"round", .exactly 1, [.real]⟩
  | .exactRound => ⟨"exact-round", .exactly 1, [.real]⟩
  | .max => ⟨"max", .atLeast 1, [.real]⟩
  | .min => ⟨"min", .atLeast 1, [.real]⟩
  | .margin => ⟨"margin", .between 2 3, []⟩
  | .mincut => ⟨"mincut", .exactly 2, [.exactInteger, .flags]⟩
  | .minclip => ⟨"minclip", .exactly 2, [.exactInteger, .flags]⟩
  | .cook => ⟨"cook", .exactly 3, [.exactInteger, .exactInteger, .flags]⟩
  | .boolarr => ⟨"boolarr", .atLeast 1, [.exactInteger]⟩
  | .countNonzero => ⟨"count-nonzero", .exactly 1, [.flags]⟩
  | .isBoolarr => ⟨"boolarr?", .exactly 1, []⟩

def name (p : Prim) : String := p.signature.name

def all : List Prim := [
  .sequence, .display, .exit, .error, .greater, .greaterEqual, .less, .lessEqual, .numEqual, .not,
  .and, .or, .xor, .isEqual, .isList, .isPair, .isNull, .isNumber, .isExact, .isInexact, .isReal,
  .isInteger, .isExactInteger, .isPositive, .isNegative, .isZero, .isBoolean, .isString, .isChar,
  .cons, .car, .cdr, .list, .listRef, .length, .string, .stringAppend, .stringUpcase,
  .stringDowncase, .stringTitlecase, .stringLength, .stringRef, .numberToString, .add, .sub, .mul,
  .div, .add1, .sub1, .expt, .sqrt, .mod, .modulo, .realPart, .imagPart, .abs, .ceil, .ceiling,
  .exactCeil, .exactCeiling, .floor, .exactFloor, .round, .exactRound, .max, .min, .margin,
  .mincut, .minclip, .cook, .boolarr, .countNonzero, .isBoolarr]

end Prim

end Jumpcut.Script
