import SwiftToKotlin.Text.CharRun

/-! # Letter case

The Unicode properties `Uppercase` and `Lowercase`, and the full upper-case mapping, under which
one character may become two or three. Where large and small letters alternate, as in the extended
Latin alphabets, a run stands for every second of its characters. A mapping that keeps one character
is stored as a shift of a whole run.
-/

namespace SwiftToKotlin.Text

def uppercaseRuns : List Nat :=
  [192,23,1,7,153,2,1,1,1,1,3,2,1,1,1,2,1,3,2,4,1,2,1,3,3,2,1,2,1,1,1,1,1,2,1,1,2,1,1,2,1,3,1,1,1,2,
   3,1,7,1,2,1,2,1,2,1,35,1,2,1,1,3,65,2,1,2,2,1,1,4,297,1,1,1,3,1,8,1,6,1,1,3,1,1,1,2,1,17,1,9,35,
   1,2,3,31,1,2,1,1,2,2,51,144,2,111,38,2889,38,1,1,5,1,722,86,2195,1,6,43,2,3,584,8,8,6,10,8,8,8,8,
   6,26,8,72,4,12,4,12,4,12,5,11,4,262,1,4,1,3,3,2,3,2,1,3,5,12,4,2,4,10,2,5,1,26,16,19,1,818,26,
   1840,48,48,1,1,3,8,4,1,1,2,1,8,3,106,1,1,1,4,1,31366,1,1,1,1,2,12,1,1,1,2,1,1,1,23,5,1,5,15,4,1,
   1,1,2,40,1,22315,26,1221,40,136,36,156,11,1,15,1,7,1,2,1770,51,157,22,2874,32,21888,32,64,25,
   25927,26,26,26,26,26,26,1,1,2,2,1,2,2,2,4,1,8,26,26,26,2,1,4,2,8,1,7,27,2,1,4,1,5,1,1,3,7,27,26,
   26,26,26,26,26,26,26,26,26,26,30,25,33,25,33,25,33,25,33,25,33,1,4405,34,2062,26,6,26,6,26]

def uppercaseAlternations : List Nat :=
  [256,55,2,15,2,45,88,13,2,17,11,57,21,7,393,23,113,33,9,53,4,11,2,95,6353,149,9,97,90,7,452,5,
   2878,5,22,97,31069,45,19,27,135,13,3,61,17,7,15,19,13,13,11,15]

def isUppercase (c : Char) : Bool :=
  if c.toNat < 128 then c.isUpper
  else liesInRun uppercaseRuns c.toNat || alternates uppercaseAlternations c.toNat

def lowercaseRuns : List Nat :=
  [170,1,10,1,4,1,36,24,1,8,55,2,15,2,48,1,1,1,1,3,2,1,1,1,2,1,3,2,4,1,2,1,3,3,2,1,9,1,1,2,1,1,2,1,
   3,1,1,1,2,2,2,3,6,1,2,1,2,1,15,2,17,2,2,1,1,1,61,7,2,1,2,2,1,1,12,69,2,35,7,2,30,5,96,1,43,1,1,1,
   3,1,2,4,18,1,27,35,1,2,3,3,23,5,1,1,2,1,2,2,51,48,110,2,144,41,2887,43,1,4,760,6,2178,9,1,1,117,
   192,213,9,97,9,8,6,10,8,8,8,8,6,10,8,8,8,8,14,2,8,8,8,8,8,8,5,1,2,6,1,3,3,1,2,8,4,2,2,8,8,10,3,1,
   2,121,1,13,1,16,13,109,1,3,2,3,1,27,1,4,1,4,1,2,2,8,4,4,1,33,16,4,1,843,26,1862,48,1,1,3,2,10,1,
   1,2,1,8,101,2,7,1,1,1,4,1,12,38,1,1,5,1,31085,3,145,3,61,10,1,1,1,1,15,1,1,1,2,1,1,3,25,1,24,1,1,
   1,38,4,1,1,1,3,821,43,1,14,6,80,20288,7,12,5,1065,26,1229,40,136,36,155,11,1,15,1,7,1,2,451,1,2,
   3,1,42,1,9,1285,51,125,22,2874,32,21888,32,59,25,25926,26,26,7,1,18,26,26,26,4,1,1,1,7,1,11,26,
   26,26,26,26,26,26,26,26,26,26,26,26,26,26,26,26,28,28,25,1,6,26,25,1,6,26,25,1,6,26,25,1,6,26,25,
   1,6,1,1,1844,10,1,20,6,6,261,62,2228,34]

def lowercaseAlternations : List Nat :=
  [257,53,4,13,4,45,41,5,40,13,4,15,11,57,21,7,395,21,115,33,9,53,2,11,4,95,6353,147,11,95,3434,5,
   20,97,31071,45,19,25,137,11,5,59,17,9,15,19,11,15,9,15]

def isLowercase (c : Char) : Bool :=
  if c.toNat < 128 then c.isLower
  else liesInRun lowercaseRuns c.toNat || alternates lowercaseAlternations c.toNat

/-- Runs of characters and how far their upper-case forms are from them. -/
def upperShifts : List (Nat × Nat × Int) :=
  [(0xB5,0xB5,743),(0xE0,0xF6,-32),(0xF8,0xFE,-32),(0xFF,0xFF,121),(0x131,0x131,-232),
   (0x17F,0x17F,-300),(0x180,0x180,195),(0x183,0x183,-1),(0x185,0x185,-1),(0x188,0x188,-1),
   (0x18C,0x18C,-1),(0x192,0x192,-1),(0x195,0x195,97),(0x199,0x199,-1),(0x19A,0x19A,163),
   (0x19B,0x19B,42561),(0x19E,0x19E,130),(0x1A8,0x1A8,-1),(0x1AD,0x1AD,-1),(0x1B0,0x1B0,-1),
   (0x1B4,0x1B4,-1),(0x1B6,0x1B6,-1),(0x1B9,0x1B9,-1),(0x1BD,0x1BD,-1),(0x1BF,0x1BF,56),
   (0x1C5,0x1C5,-1),(0x1C6,0x1C6,-2),(0x1C8,0x1C8,-1),(0x1C9,0x1C9,-2),(0x1CB,0x1CB,-1),
   (0x1CC,0x1CC,-2),(0x1DD,0x1DD,-79),(0x1F2,0x1F2,-1),(0x1F3,0x1F3,-2),(0x1F5,0x1F5,-1),
   (0x23C,0x23C,-1),(0x23F,0x240,10815),(0x242,0x242,-1),(0x250,0x250,10783),(0x251,0x251,10780),
   (0x252,0x252,10782),(0x253,0x253,-210),(0x254,0x254,-206),(0x256,0x257,-205),(0x259,0x259,-202),
   (0x25B,0x25B,-203),(0x25C,0x25C,42319),(0x260,0x260,-205),(0x261,0x261,42315),(0x263,0x263,-207),
   (0x264,0x264,42343),(0x265,0x265,42280),(0x266,0x266,42308),(0x268,0x268,-209),
   (0x269,0x269,-211),(0x26A,0x26A,42308),(0x26B,0x26B,10743),(0x26C,0x26C,42305),
   (0x26F,0x26F,-211),(0x271,0x271,10749),(0x272,0x272,-213),(0x275,0x275,-214),(0x27D,0x27D,10727),
   (0x280,0x280,-218),(0x282,0x282,42307),(0x283,0x283,-218),(0x287,0x287,42282),(0x288,0x288,-218),
   (0x289,0x289,-69),(0x28A,0x28B,-217),(0x28C,0x28C,-71),(0x292,0x292,-219),(0x29D,0x29D,42261),
   (0x29E,0x29E,42258),(0x345,0x345,84),(0x371,0x371,-1),(0x373,0x373,-1),(0x377,0x377,-1),
   (0x37B,0x37D,130),(0x3AC,0x3AC,-38),(0x3AD,0x3AF,-37),(0x3B1,0x3C1,-32),(0x3C2,0x3C2,-31),
   (0x3C3,0x3CB,-32),(0x3CC,0x3CC,-64),(0x3CD,0x3CE,-63),(0x3D0,0x3D0,-62),(0x3D1,0x3D1,-57),
   (0x3D5,0x3D5,-47),(0x3D6,0x3D6,-54),(0x3D7,0x3D7,-8),(0x3F0,0x3F0,-86),(0x3F1,0x3F1,-80),
   (0x3F2,0x3F2,7),(0x3F3,0x3F3,-116),(0x3F5,0x3F5,-96),(0x3F8,0x3F8,-1),(0x3FB,0x3FB,-1),
   (0x430,0x44F,-32),(0x450,0x45F,-80),(0x4CF,0x4CF,-15),(0x561,0x586,-48),(0x10D0,0x10FA,3008),
   (0x10FD,0x10FF,3008),(0x13F8,0x13FD,-8),(0x1C80,0x1C80,-6254),(0x1C81,0x1C81,-6253),
   (0x1C82,0x1C82,-6244),(0x1C83,0x1C84,-6242),(0x1C85,0x1C85,-6243),(0x1C86,0x1C86,-6236),
   (0x1C87,0x1C87,-6181),(0x1C88,0x1C88,35266),(0x1C8A,0x1C8A,-1),(0x1D79,0x1D79,35332),
   (0x1D7D,0x1D7D,3814),(0x1D8E,0x1D8E,35384),(0x1E9B,0x1E9B,-59),(0x1F00,0x1F07,8),
   (0x1F10,0x1F15,8),(0x1F20,0x1F27,8),(0x1F30,0x1F37,8),(0x1F40,0x1F45,8),(0x1F51,0x1F51,8),
   (0x1F53,0x1F53,8),(0x1F55,0x1F55,8),(0x1F57,0x1F57,8),(0x1F60,0x1F67,8),(0x1F70,0x1F71,74),
   (0x1F72,0x1F75,86),(0x1F76,0x1F77,100),(0x1F78,0x1F79,128),(0x1F7A,0x1F7B,112),
   (0x1F7C,0x1F7D,126),(0x1FB0,0x1FB1,8),(0x1FBE,0x1FBE,-7205),(0x1FD0,0x1FD1,8),(0x1FE0,0x1FE1,8),
   (0x1FE5,0x1FE5,7),(0x214E,0x214E,-28),(0x2170,0x217F,-16),(0x2184,0x2184,-1),(0x24D0,0x24E9,-26),
   (0x2C30,0x2C5F,-48),(0x2C61,0x2C61,-1),(0x2C65,0x2C65,-10795),(0x2C66,0x2C66,-10792),
   (0x2C73,0x2C73,-1),(0x2C76,0x2C76,-1),(0x2CEC,0x2CEC,-1),(0x2CEE,0x2CEE,-1),(0x2CF3,0x2CF3,-1),
   (0x2D00,0x2D25,-7264),(0x2D27,0x2D27,-7264),(0x2D2D,0x2D2D,-7264),(0xA77A,0xA77A,-1),
   (0xA77C,0xA77C,-1),(0xA78C,0xA78C,-1),(0xA791,0xA791,-1),(0xA793,0xA793,-1),(0xA794,0xA794,48),
   (0xA7C8,0xA7C8,-1),(0xA7CA,0xA7CA,-1),(0xA7F6,0xA7F6,-1),(0xAB53,0xAB53,-928),
   (0xAB70,0xABBF,-38864),(0xFF41,0xFF5A,-32),(0x10428,0x1044F,-40),(0x104D8,0x104FB,-40),
   (0x10597,0x105A1,-39),(0x105A3,0x105B1,-39),(0x105B3,0x105B9,-39),(0x105BB,0x105BC,-39),
   (0x10CC0,0x10CF2,-64),(0x10D70,0x10D85,-32),(0x118C0,0x118DF,-32),(0x16E60,0x16E7F,-32),
   (0x16EBB,0x16ED3,-27),(0x1E922,0x1E943,-34)]

/-- Runs in which every second character has its upper-case form before it. -/
def upperAlternations : List Nat :=
  [257,47,3,5,2,15,2,45,2,5,34,5,40,15,2,17,9,39,3,17,19,9,393,23,113,33,9,53,2,13,2,95,6353,149,11,
   95,3432,5,20,99,31069,45,19,27,135,13,3,61,15,9,15,19,11,15,9,15]

/-- The Greek letters with an iota below, in rows of eight small and eight large ones, and the
letters without it. -/
def iotaRows : List (Nat × Nat) :=
  [(0x1F80, 0x1F08), (0x1F90, 0x1F28), (0x1FA0, 0x1F68)]

/-- The characters whose upper-case form is longer than one character. -/
def upperExpansions : List (Nat × List Nat) :=
  [(0xDF,[0x53,0x53]),(0x149,[0x2BC,0x4E]),(0x1F0,[0x4A,0x30C]),(0x390,[0x399,0x308,0x301]),
   (0x3B0,[0x3A5,0x308,0x301]),(0x587,[0x535,0x552]),(0x1E96,[0x48,0x331]),(0x1E97,[0x54,0x308]),
   (0x1E98,[0x57,0x30A]),(0x1E99,[0x59,0x30A]),(0x1E9A,[0x41,0x2BE]),(0x1F50,[0x3A5,0x313]),
   (0x1F52,[0x3A5,0x313,0x300]),(0x1F54,[0x3A5,0x313,0x301]),(0x1F56,[0x3A5,0x313,0x342]),
   (0x1FB2,[0x1FBA,0x399]),(0x1FB3,[0x391,0x399]),(0x1FB4,[0x386,0x399]),(0x1FB6,[0x391,0x342]),
   (0x1FB7,[0x391,0x342,0x399]),(0x1FBC,[0x391,0x399]),(0x1FC2,[0x1FCA,0x399]),
   (0x1FC3,[0x397,0x399]),(0x1FC4,[0x389,0x399]),(0x1FC6,[0x397,0x342]),
   (0x1FC7,[0x397,0x342,0x399]),(0x1FCC,[0x397,0x399]),(0x1FD2,[0x399,0x308,0x300]),
   (0x1FD3,[0x399,0x308,0x301]),(0x1FD6,[0x399,0x342]),(0x1FD7,[0x399,0x308,0x342]),
   (0x1FE2,[0x3A5,0x308,0x300]),(0x1FE3,[0x3A5,0x308,0x301]),(0x1FE4,[0x3A1,0x313]),
   (0x1FE6,[0x3A5,0x342]),(0x1FE7,[0x3A5,0x308,0x342]),(0x1FF2,[0x1FFA,0x399]),
   (0x1FF3,[0x3A9,0x399]),(0x1FF4,[0x38F,0x399]),(0x1FF6,[0x3A9,0x342]),
   (0x1FF7,[0x3A9,0x342,0x399]),(0x1FFC,[0x3A9,0x399]),(0xFB00,[0x46,0x46]),(0xFB01,[0x46,0x49]),
   (0xFB02,[0x46,0x4C]),(0xFB03,[0x46,0x46,0x49]),(0xFB04,[0x46,0x46,0x4C]),(0xFB05,[0x53,0x54]),
   (0xFB06,[0x53,0x54]),(0xFB13,[0x544,0x546]),(0xFB14,[0x544,0x535]),(0xFB15,[0x544,0x53B]),
   (0xFB16,[0x54E,0x546]),(0xFB17,[0x544,0x53D])] ++
  iotaRows.flatMap fun (first, capital) =>
    (List.range 16).map fun i => (first + i, [capital + i % 8, 0x399])

def uppercase (c : Char) : List Char :=
  if c.toNat < 128 then [c.toUpper]
  else match upperExpansions.lookup c.toNat with
    | some codes => codes.map Char.ofNat
    | none =>
      if alternates upperAlternations c.toNat then [Char.ofNat (c.toNat - 1)]
      else match upperShifts.find? fun run => run.1 ≤ c.toNat && c.toNat ≤ run.2.1 with
        | some (_, _, shift) => [Char.ofNat (c.toNat + shift).toNat]
        | none => [c]

/-- The text with its first character in upper case. -/
def capitalize : List Char → List Char
  | [] => []
  | first :: rest => uppercase first ++ rest

end SwiftToKotlin.Text
