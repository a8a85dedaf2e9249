import Jumpcut.Setting.Error
import Jumpcut.Script.Error
import Jumpcut.Wave.Error

namespace Jumpcut

inductive ExitCode : Type
  | none
  | flag : Bool → ExitCode
  | int : Int → ExitCode
  | frac : Rat → ExitCode
  | float : Float → ExitCode
  | complex : (re im : Float) → ExitCode
  | text : String → ExitCode
  | char : Char → ExitCode
  | flags : List Bool → ExitCode
  | other
  deriving DecidableEq, Repr

def ExitCode.isSuccess : ExitCode → Bool
  | .none => true
  | .flag b => !b
  | .int i => i == 0
  | .float x => x == 0.0
  | _ => false

inductive Refusal : Type
  | timecodeFormat | complexTimeline
  | subtitleCodec : String → Refusal
  | importVersion | unknownObject | arityBounds | streamsKey | formatKey | versionString
  | digitLimit
  deriving DecidableEq, Repr

def Refusal.message : Refusal → String
  | .timecodeFormat => "to_timecode: Unreachable"
  | .complexTimeline => "Timeline too complex"
  | .subtitleCodec c => "codec " ++ c ++ " not supported."
  | .importVersion => "Importing v2 timelines not implemented."
  | .unknownObject => "Unreachable"
  | .arityBounds => "lower must be less than upper"
  | .streamsKey => "Key 'streams' not found"
  | .formatKey => "Key 'format' not found"
  | .versionString => "Unable to find version string."
  | .digitLimit => "Exceeds the limit (4300 digits) for integer string conversion; " ++
      "use sys.set_int_max_str_digits() to increase the limit"

inductive JsonDefect : Type
  | malformed : (reason : String) → (line column offset : Nat) → JsonDefect
  | longInteger : (digits : Nat) → JsonDefect
  deriving DecidableEq, Repr

def JsonDefect.message : JsonDefect → String
  | .malformed reason line column offset =>
    reason ++ ": line " ++ toString line ++ " column " ++ toString column ++
      " (char " ++ toString offset ++ ")"
  | .longInteger digits =>
    "Exceeds the limit (4300 digits) for integer string conversion: value has " ++
      toString digits ++ " digits; use sys.set_int_max_str_digits() to increase the limit"

inductive Fault : Type
  | complaint : String → Fault
  | script : Script.Error → Fault
  | setting : Setting.Error → Fault
  | wave : Wave.Error → Fault
  | refused : Refusal → Fault
  | notTruth
  | wrongKind | badValue | divisionByZero | outOfRange | noKey | noField | broken | tooLarge
  | unassigned | noFile | occupied | exhausted | unencodable
  | badJson : JsonDefect → Fault
  | badXml | shortRead | system | denied | interrupted | brokenPipe
  | exit : ExitCode → Fault
  | killed : Nat → Fault
  deriving DecidableEq, Repr

end Jumpcut
