import Jumpcut.Text.Quoted

namespace Jumpcut.Wave

inductive Error : Type
  | notCompliant
  | unknownTag : (tag : Nat) → Error
  | sampleSize : (bytes : Nat) → Error
  | integerDepth : (bits : Nat) → Error
  | floatDepth : (bits : Nat) → Error
  | heading : List UInt8 → Error
  | form : List UInt8 → Error
  | signature : List UInt8 → Error
  | endOfFile
  | partialId : List UInt8 → Error
  | noFormat | tooLarge
  deriving DecidableEq, Repr

def tagText (tag : Nat) : String :=
  let ds := Nat.toDigits 16 tag
  "0x" ++ String.ofList (List.replicate (4 - ds.length) '0' ++ ds)

def Error.message : Error → String
  | .notCompliant => "Binary structure of wave file is not compliant"
  | .unknownTag t =>
    "Encountered unknown format tag: " ++ tagText t ++ ", while reading fmt chunk."
  | .sampleSize n => "Unsupported bytes per sample: " ++ toString n
  | .integerDepth n =>
    "Unsupported bit depth: the WAV file has " ++ toString n ++ "-bit integer data."
  | .floatDepth n =>
    "Unsupported bit depth: the WAV file has " ++ toString n ++ "-bit floating-point data."
  | .heading bs => "Wrong heading: " ++ Text.quotedBytes bs
  | .form bs => "Not a WAV file. RIFF form type is " ++ Text.quotedBytes bs ++ "."
  | .signature bs => "File format " ++ Text.quotedBytes bs ++ " not supported."
  | .endOfFile => "Unexpected end of file."
  | .partialId bs => "Incomplete chunk ID: " ++ Text.quotedBytes bs
  | .noFormat => "No fmt chunk before data"
  | .tooLarge => "Data exceeds wave file size limit"

end Jumpcut.Wave
