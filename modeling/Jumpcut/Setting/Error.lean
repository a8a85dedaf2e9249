namespace Jumpcut.Setting

inductive Error : Type
  | tooFew : (name : String) → Error
  | tooMany : (name : String) → Error
  | invalidNumber : String → Error
  | unknownUnit : String → Error
  | naturalUnit : String → Error
  | naturalNegative : String → Error
  | naturalFraction : String → Error
  | oneDivisor : String → Error
  | integerParts : String → Error
  | zeroDivisor : String → Error
  | thresholdRange : String → Error
  | positiveDecibels
  | timeFormat : String → Error
  | wholeTicks : String → Error
  | anchor | align | marginCount
  | resolutionCount : String → Error
  | color : String → Error
  deriving DecidableEq, Repr

def anchors : List String := ["tl", "tr", "bl", "br", "ce"]

private def about (val rest : String) : String := "'" ++ val ++ "': " ++ rest

def Error.message : Error → String
  | .tooFew n => "Too few arguments for " ++ n ++ "."
  | .tooMany n => "Too many arguments for " ++ n ++ "."
  | .invalidNumber v => "Invalid number: '" ++ v ++ "'"
  | .unknownUnit u => "Unknown unit: '" ++ u ++ "'"
  | .naturalUnit v => about v "Natural does not allow units."
  | .naturalNegative v => about v "Natural cannot be negative."
  | .naturalFraction v => about v "Natural must be an integer."
  | .oneDivisor v => about v "One divisor allowed."
  | .integerParts v => about v "Numerator and Denominator must be integers."
  | .zeroDivisor v => about v "Denominator must not be zero."
  | .thresholdRange v => about v "Threshold must be between 0 and 1 (0%-100%)"
  | .positiveDecibels => "dB only goes up to 0"
  | .timeFormat v => about v "Invalid time format"
  | .wholeTicks v => about v "Time uses ticks by default and ticks only accept ints."
  | .anchor => "Anchor must be: " ++ " ".intercalate anchors
  | .align => "Align must be 'left', 'right', or 'center'"
  | .marginCount => "--margin has too many arguments."
  | .resolutionCount v => about v "Resolution takes two numbers"
  | .color c => "Invalid Color: '" ++ c ++ "'"

end Jumpcut.Setting
