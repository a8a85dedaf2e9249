/-!
Letter case by code point. A row `(lo, hi, step, shift)` moves every `step`-th code point from `lo`
to `hi` by `shift`; letters with several counterparts have rows of their own.
-/
namespace Jumpcut.Text

abbrev CaseRow := Nat × Nat × Nat × Int

/-- Rows from a table that holds for each how far it begins behind the last one, how far it reaches,
its step and its shift. -/
def rowsFrom (last : Nat) : List Int → List CaseRow
  | gap :: reach :: step :: shift :: rows =>
    let lo := last + gap.toNat
    (lo, lo + reach.toNat, step.toNat, shift) :: rowsFrom lo rows
  | _ => []

def upperRows : List CaseRow := rowsFrom 0 [
  97,25,1,-32, 84,0,1,743, 43,22,1,-32, 24,6,1,-32, 7,0,1,121, 2,46,2,-1, 48,0,1,-232, 2,4,2,-1,
  7,14,2,-1, 17,44,2,-1, 47,4,2,-1, 5,0,1,-300, 1,0,1,195, 3,2,2,-1, 5,0,1,-1, 4,0,1,-1, 6,0,1,-1,
  3,0,1,97, 4,0,1,-1, 1,0,1,163, 4,0,1,130, 3,4,2,-1, 7,0,1,-1, 5,0,1,-1, 3,0,1,-1, 4,2,2,-1,
  5,0,1,-1, 4,0,1,-1, 2,0,1,56, 6,0,1,-1, 1,0,1,-2, 2,0,1,-1, 1,0,1,-2, 2,0,1,-1, 1,0,1,-2,
  2,14,2,-1, 15,0,1,-79, 2,16,2,-1, 19,0,1,-1, 1,0,1,-2, 2,0,1,-1, 4,38,2,-1, 42,16,2,-1, 25,0,1,-1,
  3,1,1,10815, 3,0,1,-1, 5,8,2,-1, 9,0,1,10783, 1,0,1,10780, 1,0,1,10782, 1,0,1,-210, 1,0,1,-206,
  2,1,1,-205, 3,0,1,-202, 2,0,1,-203, 1,0,1,42319, 4,0,1,-205, 1,0,1,42315, 2,0,1,-207, 2,0,1,42280,
  1,0,1,42308, 2,0,1,-209, 1,0,1,-211, 1,0,1,42308, 1,0,1,10743, 1,0,1,42305, 3,0,1,-211,
  2,0,1,10749, 1,0,1,-213, 3,0,1,-214, 8,0,1,10727, 3,0,1,-218, 2,0,1,42307, 1,0,1,-218,
  4,0,1,42282, 1,0,1,-218, 1,0,1,-69, 1,1,1,-217, 2,0,1,-71, 6,0,1,-219, 11,0,1,42261, 1,0,1,42258,
  167,0,1,84, 44,2,2,-1, 6,0,1,-1, 4,2,1,130, 49,0,1,-38, 1,2,1,-37, 4,16,1,-32, 17,0,1,-31,
  1,8,1,-32, 9,0,1,-64, 1,1,1,-63, 3,0,1,-62, 1,0,1,-57, 4,0,1,-47, 1,0,1,-54, 1,0,1,-8, 2,22,2,-1,
  23,0,1,-86, 1,0,1,-80, 1,0,1,7, 1,0,1,-116, 2,0,1,-96, 3,0,1,-1, 3,0,1,-1, 53,31,1,-32,
  32,15,1,-80, 17,32,2,-1, 42,52,2,-1, 55,12,2,-1, 13,0,1,-15, 2,94,2,-1, 144,37,1,-48,
  2927,42,1,3008, 45,2,1,3008, 763,5,1,-8, 2184,0,1,-6254, 1,0,1,-6253, 1,0,1,-6244, 1,1,1,-6242,
  2,0,1,-6243, 1,0,1,-6236, 1,0,1,-6181, 1,0,1,35266, 241,0,1,35332, 4,0,1,3814, 17,0,1,35384,
  115,148,2,-1, 154,0,1,-59, 6,94,2,-1, 95,7,1,8, 16,5,1,8, 16,7,1,8, 16,7,1,8, 16,5,1,8, 17,6,2,8,
  15,7,1,8, 16,1,1,74, 2,3,1,86, 4,1,1,100, 2,1,1,128, 2,1,1,112, 2,1,1,126, 52,1,1,8, 14,0,1,-7205,
  18,1,1,8, 16,1,1,8, 5,0,1,7, 361,0,1,-28, 34,15,1,-16, 20,0,1,-1, 844,25,1,-26, 1888,47,1,-48,
  49,0,1,-1, 4,0,1,-10795, 1,0,1,-10792, 2,4,2,-1, 11,0,1,-1, 3,0,1,-1, 11,98,2,-1, 107,2,2,-1,
  7,0,1,-1, 13,37,1,-7264, 39,0,1,-7264, 6,0,1,-7264, 30996,44,2,-1, 64,26,2,-1, 162,12,2,-1,
  16,60,2,-1, 71,2,2,-1, 5,8,2,-1, 13,0,1,-1, 5,2,2,-1, 3,0,1,48, 3,18,2,-1, 30,14,2,-1, 19,2,2,-1,
  9,0,1,-1, 6,2,2,-1, 31,0,1,-1, 861,0,1,-928, 29,79,1,-38864, 21457,25,1,-32, 1255,39,1,-40,
  176,35,1,-40, 191,36,2,-39, 1,8,2,-39, 12,12,2,-39, 16,4,2,-39, 8,0,1,-39, 1796,50,1,-64,
  3072,31,1,-32, 21920,31,1,-32, 31426,33,1,-34]

def iotaSeveral : List (Nat × List Nat) :=
  [(0x1f80, 0x1f08), (0x1f90, 0x1f28), (0x1fa0, 0x1f68)].flatMap fun b =>
    (List.range 16).map fun k => (b.1 + k, [b.2 + k % 8, 0x399])

def upperSeveral : List (Nat × List Nat) := iotaSeveral ++ [
  (0xdf, [0x53, 0x53]), (0x149, [0x2bc, 0x4e]), (0x1f0, [0x4a, 0x30c]),
  (0x390, [0x399, 0x308, 0x301]), (0x3b0, [0x3a5, 0x308, 0x301]), (0x587, [0x535, 0x552]),
  (0x1e96, [0x48, 0x331]), (0x1e97, [0x54, 0x308]), (0x1e98, [0x57, 0x30a]),
  (0x1e99, [0x59, 0x30a]), (0x1e9a, [0x41, 0x2be]), (0x1f50, [0x3a5, 0x313]),
  (0x1f52, [0x3a5, 0x313, 0x300]), (0x1f54, [0x3a5, 0x313, 0x301]), (0x1f56, [0x3a5, 0x313, 0x342]),
  (0x1fb2, [0x1fba, 0x399]), (0x1fb3, [0x391, 0x399]), (0x1fb4, [0x386, 0x399]),
  (0x1fb6, [0x391, 0x342]), (0x1fb7, [0x391, 0x342, 0x399]), (0x1fbc, [0x391, 0x399]),
  (0x1fc2, [0x1fca, 0x399]), (0x1fc3, [0x397, 0x399]), (0x1fc4, [0x389, 0x399]),
  (0x1fc6, [0x397, 0x342]), (0x1fc7, [0x397, 0x342, 0x399]), (0x1fcc, [0x397, 0x399]),
  (0x1fd2, [0x399, 0x308, 0x300]), (0x1fd3, [0x399, 0x308, 0x301]), (0x1fd6, [0x399, 0x342]),
  (0x1fd7, [0x399, 0x308, 0x342]), (0x1fe2, [0x3a5, 0x308, 0x300]), (0x1fe3, [0x3a5, 0x308, 0x301]),
  (0x1fe4, [0x3a1, 0x313]), (0x1fe6, [0x3a5, 0x342]), (0x1fe7, [0x3a5, 0x308, 0x342]),
  (0x1ff2, [0x1ffa, 0x399]), (0x1ff3, [0x3a9, 0x399]), (0x1ff4, [0x38f, 0x399]),
  (0x1ff6, [0x3a9, 0x342]), (0x1ff7, [0x3a9, 0x342, 0x399]), (0x1ffc, [0x3a9, 0x399]),
  (0xfb00, [0x46, 0x46]), (0xfb01, [0x46, 0x49]), (0xfb02, [0x46, 0x4c]),
  (0xfb03, [0x46, 0x46, 0x49]), (0xfb04, [0x46, 0x46, 0x4c]), (0xfb05, [0x53, 0x54]),
  (0xfb06, [0x53, 0x54]), (0xfb13, [0x544, 0x546]), (0xfb14, [0x544, 0x535]),
  (0xfb15, [0x544, 0x53b]), (0xfb16, [0x54e, 0x546]), (0xfb17, [0x544, 0x53d])]

def lowerOwn : List CaseRow := rowsFrom 0 [
  452,0,1,2, 1,0,1,1, 2,0,1,2, 1,0,1,1, 2,0,1,2, 1,0,1,1, 38,0,1,2, 1,0,1,1, 423,0,1,32, 3,0,1,32,
  7,0,1,32, 81,0,1,-60, 6826,0,1,-7615, 234,7,1,-8, 16,7,1,-8, 16,7,1,-8, 20,0,1,-9, 16,0,1,-9,
  48,0,1,-9, 298,0,1,-7517, 4,0,1,-8383, 1,0,1,-8262, 34079,0,1,1]

def lowerSeveral : List (Nat × List Nat) := [(0x130, [0x69, 0x307])]

def titleOwn : List CaseRow := rowsFrom 0 [
  452,0,1,1, 1,0,1,0, 1,0,1,-1, 1,0,1,1, 1,0,1,0, 1,0,1,-1, 1,0,1,1, 1,0,1,0, 1,0,1,-1, 37,0,1,1,
  1,0,1,0, 1,0,1,-1, 3805,42,1,0, 45,2,1,0, 3715,7,1,8, 8,7,1,0, 8,7,1,8, 8,7,1,0, 8,7,1,8, 8,7,1,0,
  11,0,1,9, 9,0,1,0, 7,0,1,9, 9,0,1,0, 39,0,1,9, 9,0,1,0]

def titleSeveral : List (Nat × List Nat) := [
  (0xdf, [0x53, 0x73]), (0x587, [0x535, 0x582]), (0x1fb2, [0x1fba, 0x345]),
  (0x1fb4, [0x386, 0x345]), (0x1fb7, [0x391, 0x342, 0x345]), (0x1fc2, [0x1fca, 0x345]),
  (0x1fc4, [0x389, 0x345]), (0x1fc7, [0x397, 0x342, 0x345]), (0x1ff2, [0x1ffa, 0x345]),
  (0x1ff4, [0x38f, 0x345]), (0x1ff7, [0x3a9, 0x342, 0x345]), (0xfb00, [0x46, 0x66]),
  (0xfb01, [0x46, 0x69]), (0xfb02, [0x46, 0x6c]), (0xfb03, [0x46, 0x66, 0x69]),
  (0xfb04, [0x46, 0x66, 0x6c]), (0xfb05, [0x53, 0x74]), (0xfb06, [0x53, 0x74]),
  (0xfb13, [0x544, 0x576]), (0xfb14, [0x544, 0x565]), (0xfb15, [0x544, 0x56b]),
  (0xfb16, [0x54e, 0x576]), (0xfb17, [0x544, 0x56d])]

end Jumpcut.Text
