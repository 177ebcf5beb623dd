import WidgetCompiler.Text.Letter

namespace WidgetCompiler.Text

/-- The code points above 127 that are Alphabetic and do not have the Unicode property ID_Start. -/
def alphabeticMarkRuns : List Nat :=
  [837,1,618,14,0,3,2,1,2,1,1,72,11,48,13,1,7,16,1,101,7,4,4,2,2,4,1,35,1,30,16,102,11,101,2,3,9,1,
    3,1,4,167,12,3,7,6,20,54,2,2,15,1,2,5,3,10,2,29,3,58,7,2,2,2,2,10,1,10,2,29,3,58,5,4,2,2,2,4,1,
    30,2,3,1,11,3,58,8,1,3,1,2,21,2,22,3,4,3,58,7,2,2,2,2,9,2,10,2,30,1,59,5,3,3,1,3,10,1,40,5,57,7,
    1,3,1,3,8,2,11,2,29,3,58,7,1,3,1,3,8,2,11,2,15,1,12,4,58,7,1,3,1,3,10,1,10,2,29,3,75,6,0,3,8,18,
    2,61,1,2,7,18,1,99,1,2,6,1,2,16,1,163,19,9,11,1,36,110,12,1,1,2,4,23,4,4,3,1,3,2,7,3,4,13,12,1,
    1,10,4,1652,2,30,2,30,2,30,2,66,19,224,1,118,12,4,9,222,5,57,10,2,20,74,2,11,3,49,5,48,15,60,3,
    30,9,2,2,57,11,50,19,432,14,1729,52,2294,32,47,1,30788,8,34,2,354,1,8,1,23,5,88,2,50,16,1,1,57,
    1,38,5,28,12,45,4,48,12,37,1,67,14,12,1,8,2,45,3,50,1,1,3,2,2,5,1,44,5,5,1,237,8,20275,1,2135,5,
    1670,3,1,2,5,4,788,4,387,2,339,3,53,14,45,2,11,3,45,9,9,1,61,3,36,12,18,2,57,3,48,13,14,2,92,9,
    2,1,6,1,2,1,157,10,23,4,58,7,2,2,2,2,10,1,10,2,209,13,1,3,106,18,237,7,2,7,29,2,82,15,1,1,106,
    11,103,14,257,13,247,6,1,2,2,2,3,0,3,142,7,2,6,4,1,28,10,42,5,1,4,18,11,46,14,407,8,1,7,83,22,1,
    14,122,6,3,1,1,2,1,3,1,1,3,1,66,5,1,2,1,4,348,4,9,2,1,1,48,7,3,3,20494,1,1,55,7,4,93,2,19628,1,
    9057,7,1,17,2,7,1,2,1,5,100,1,2231,1,2024,26,6,26,6,26]

/-- The code points above 127 that have the property ID_Continue and are not Alphabetic. -/
def identifierMarkRuns : List Nat :=
  [183,1,584,69,1,42,23,1,251,5,265,31,168,1,7,10,117,2,9,3,3,10,70,11,117,10,33,9,9,1,26,2,19,1,43,
    3,60,8,42,10,12,2,8,6,76,1,16,1,3,4,17,10,76,1,16,1,24,10,14,1,61,1,16,1,24,10,76,1,16,1,24,10,
    13,3,60,1,16,1,7,1,16,10,93,1,24,10,76,1,16,1,24,10,76,1,16,1,24,10,75,2,16,1,24,10,90,1,27,10,
    87,6,0,3,10,96,1,13,5,0,3,10,62,2,6,10,11,0,5,4,2,68,1,1,2,62,1,112,1,1,2,5,10,70,10,707,3,9,9,
    930,2,30,1,127,2,19,11,9,1,2,10,33,3,1,11,287,3,10,10,128,11,133,1,20,8,2,11,6,10,22,14,3,11,
    104,1,15,1,11,10,17,9,54,2,4,10,44,1,11,2,67,1,8,10,6,10,118,3,1,21,4,1,6,1,2,3,198,39,14,11,
    575,2,19,1,123,13,4,1,3,12,39,1,21,1,3008,3,141,1,682,6,105,4,30083,10,69,1,12,2,114,2,276,1,37,
    1,151,1,11,10,6,18,14,10,33,3,37,1,95,1,12,1,15,10,22,10,86,10,101,0,3,52,1,245,2,2,10,20998,16,
    16,16,3,2,24,3,192,10,37,1,701,1,226,1,447,10,1422,3,4,1,165,2,585,10,451,3,70,11,49,4,192,1,31,
    11,14,1,57,2,53,10,57,2,1,10,51,1,76,1,8,4,3,10,91,2,178,2,5,10,65,2,16,1,24,7,3,5,205,1,3,1,9,
    10,4,1,99,2,12,10,229,2,126,1,16,10,92,2,8,10,97,1,4,10,255,2,165,10,83,2,4,1,12,10,134,1,82,2,
    18,1,80,2,421,1,16,10,232,1,1,2,10,10,61,1,8,10,407,2,13,10,5350,1,6,15,13834,10,86,10,38,5,59,
    7,25,10,1162,1,19640,1,4706,46,2,23,542,5,3,6,8,8,2,7,30,4,148,3,1417,50,512,55,4,50,8,1,14,1,
    22,5,1,15,1664,7,9,10,356,1,61,14,498,14,982,7,109,3,1,3,5,10,4758,10,787718,240]

/-- The code points above 127 that are Alphabetic and do not have the property ID_Continue. -/
def enclosedLetterRuns : List Nat :=
  [9398, 52, 2373, 1, 115456, 26, 6, 26, 6, 26]

def isIdentifierStart (c : Char) : Bool :=
  if c.toNat < 128 then c.isAlpha || c == '_' || c == '$'
  else isAlphabetic c && !inRuns alphabeticMarkRuns c ||
    [0x2118, 0x212E, 0x309B, 0x309C].contains c.toNat

def isIdentifierPart (c : Char) : Bool :=
  if c.toNat < 128 then c.isAlphanum || c == '_' || c == '$'
  else isAlphabetic c && !inRuns enclosedLetterRuns c || inRuns identifierMarkRuns c ||
    c.toNat == 0x200C || c.toNat == 0x200D

def isWordPart (c : Char) : Bool :=
  if c.toNat < 128 then c.isAlphanum || c == '_'
  else isAlphabetic c || inRuns identifierMarkRuns c || c.toNat == 0x200C || c.toNat == 0x200D

end WidgetCompiler.Text
