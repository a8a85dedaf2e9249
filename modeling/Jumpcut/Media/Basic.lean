namespace Jumpcut

structure Picture where
  (width height : Nat)
  bytes : List UInt8
  deriving DecidableEq, Repr

def Picture.plain (width height : Nat) (r g b : UInt8) : Picture :=
  ⟨width, height, (List.replicate (width * height) [r, g, b]).flatten⟩

structure Still where
  (width height : Nat)
  (red green blue alpha : UInt8)
  deriving DecidableEq, Repr

structure Frame where
  time : Float
  picture : Picture
  key : Bool
  pts : Int

structure VideoTrack where
  duration : Int
  timeBase : Rat
  averageRate : Option Rat
  pixelFormat : String
  (width height : Nat)
  frames : List Frame

structure Medium where
  still : Option Still
  probe : String
  audio : List ByteArray
  subtitles : List String
  video : List VideoTrack

end Jumpcut
