import Snowbank.Text.Script

/-!
# Character Properties

The properties of the Unicode standard that a character either has or has
not. Most of them are close to a union of general categories, so a property is
given as such a union, with some ranges added and some taken away.

Properties are asked for by name. Case, spaces, hyphens and underscores in a
name do not count, and neither does `is` at its front.
-/

namespace Snowbank.Text

/-- A property of characters. -/
inductive Property where
  /-- The character is of one of the categories or in the ranges `plus`, and
      not in the ranges `minus`. -/
  | mixed (categories : List String) (plus minus : List (Nat × Nat))
  /-- The character belongs to the script. -/
  | script (code : String)
  /-- Every character has it. -/
  | any
  /-- The character is in use. -/
  | assigned

namespace Property

def holds (c : Char) : Property → Bool
  | mixed categories plus minus =>
    (categories.contains (category c) || inRanges c.toNat plus) && !inRanges c.toNat minus
  | script code => Text.script c == code
  | any => true
  | assigned => category c != "Cn"

/-- The properties: their names, in small letters and without spaces, then the
    categories and the ranges that are added and taken away. -/
def table : List (String × String × List String × List String) :=
  [("ahex asciihexdigit", "", ["30-9 7-5 1A-5"], []),
   ("alpha alphabetic", "Lu Ll Lt Lm Lo Mn Mc Nl",
     ["24B6-33 1CC46-19 6-19 6-19"],
     ["300-44 1-29 113-4 109-1E A8 86-1 9-2 53-A A0-8 9 1A-1 13 2B-2 3C-7 2A-9 C-1 8-5 4C 10 3-3",
      "67 10 30 3D 10 6E 10 2F-2 3C 10 7 77 6E 10 6E 10 6D-1 10 7C 7C-5 1 6B D-4 1 49-1 1B 1 1",
      "4-1 44 1-1 3E 70 1-1 322-2 3B4-1 1E 7F-1 13-A 9 2D-2 1 129-2 124 14-7 2 30-D 3-A 68 F 26-8",
      "36-1 3A B-1 43 98-2 1-14 4 6 2-2 C6-26 E-A 2D0-C 4 3-B BFE-2 8D 2AA-5 69-1 75D4 C-1 72-1",
      "114 25 97 1B-11 39-2 25 5F C FE 1 34 F5-1 5212-F 10-F 3CD E2 757-2 4 A5-1 416-2 46-A 31-3",
      "C0 29 E 39-1 78-1 3E 4C 8-3 68-1 B2-1 50-1 10 18-6 3-4 CD 3 17 63-1 FB-1 7E 76-1 73 10D-1",
      "102-1 4 9C 52-1 12 50-1 1A5 102 1-1 51 1A9-1 14FD 6-E 369A-4 3B-6 4AD 4CB8 1262-2D 2-16",
      "21E-4 3-5 8-7 2-6 1E-3 94-2 7BB-36 4-31 8 E 16-4 1-E 680-6 177 3D-3 1FC-3 3E0-6 6D-2 1-2",
      "C17B5-EF"]),
   ("bidic bidicontrol", "", ["61C 19F1-1 1A-4 37-3"], []),
   ("bidim bidimirrored", "Ps Pe Pi Pf",
     ["3C 1 2101 C0-3 3-5 3 3-1 3-3 1-3 1 1 4-8 5 1-11 5-3 9-1 1 1-7 2-1E 2-3 5 9-1 2-12 5-1 9-4",
      "2-1 4-17 2-F 20-1 49E 2-1 3-1 1-2 5-3 5-2 3-3 1B5-5 1-D 8 7-5 3 4-4 1-1 6 4 1-2 2-1 A-5",
      "10-12 1-3 2 1 2 1-3 5-1 6-2 18-1 B-1 4-3 1-1 2-1 4-2A 2-7 1-27 5 1 3-4 5-2 4 3-4 1 100",
      "D265-1 B6 1 D7BC 39 39 39 39"],
     ["2018-7 E22 1DA-2 CD1E-1 D7-1 1C-F 2-1"]),
   ("ci caseignorable", "Lm Mn Me Sk Cf", ["27 6 B 7C 2CF 1D7 94 1A23-1 A 2 DDEB 3E 2 B1 6 B"], []),
   ("cased", "Lu Ll Lt",
     ["AA F 1F5-8 7-1 1E-4 60 34 D81 C2F-3E D 22-24 2B1 D 10-C C3-1F 336-33 792-1 7A1E-1 D2 81-2",
      "3-1 362-3 9 5C16 2-2 1-29 1-8 D875-3D 10C2-19 6-19 6-19"],
     []),
   ("cwcf changeswhencasefolded", "Lu Lt",
     ["B5 29 69 35 1C5 7C D-1 3-1 19-1 3 191 E70-5 882-8 211-1 E4-7 8-7 8-7 A-2 2 A-2 2 2A-2 2",
      "168-F 346-19 86A0-4F 4F40-6 C-4"],
     ["3D2-2 FCB-55 D0C 4 3-2 2-2 2 3-4 6 3 3-1 2-1 1 A-1 5 1B2BA-19 1A-19 1A-19 1A 1-1 2 2-1 2-3",
      "1-7 1A-19 1A-1 1-3 2-7 1-6 1B-1 1-3 1-4 1 3-6 1B-19 1A-19 1A-19 1A-19 1A-19 1A-19 1E-18",
      "21-18 21-18 21-18 21-18 21"]),
   ("cwcm changeswhencasemapped", "Lu Ll Lt",
     ["345 1E1A-1F 336-33"],
     ["138 54 D E-1 E 3 62 12-5 1B 2 1 2-2 2 1 2 5-1 1 2-1 1-6 1-1 1 2-2 6-4 1 1-7 2-10 122-2 27",
      "163 27 1777-2B 3F-C 2-2 1-F 1-B 101-1 1 262 4 2-9 1 3-4 6 3 3-1 1-2 1-1 4 2-3 5-4 B27 2",
      "2-4 68 7A4B-1 3F-7 15 6 19 23 1 24 335-22 1-6 5-8 12897-54 1-46 1-1 2 2-1 2-3 1-B 1 1-6",
      "1-40 1-3 2-7 1-6 1-1B 1-3 1-4 1 3-6 1-153 2-18 1-18 1-1E 1-18 1-1E 1-18 1-1E 1-18 1-1E",
      "1-18 1-7 734-9 1-13 6-5"]),
   ("cwl changeswhenlowercased", "Lu Lt",
     ["2160-F 346-19"],
     ["3D2-2 1D2D 4 3-2 2-2 2 3-4 6 3 3-1 2-1 1 A-1 5 1B2BA-19 1A-19 1A-19 1A 1-1 2 2-1 2-3 1-7",
      "1A-19 1A-1 1-3 2-7 1-6 1B-1 1-3 1-4 1 3-6 1B-19 1A-19 1A-19 1A-19 1A-19 1A-19 1E-18 21-18",
      "21-18 21-18 21-18 21"]),
   ("cwt changeswhentitlecased", "Ll",
     ["1C4 2 2 26 153 1E2A-F 350-19"],
     ["138 54 D E-1 E 3 62 12-5 1B 2 1 2-2 2 1 2 5-1 1 2-1 1-6 1-1 1 2-2 6-4 1 1-7 2-10 14C 163",
      "27 B47-2A 2-2 C00-2B 3F-C 2-2 1-F 1-B 101-1 1 26A 3-1 3 1B 4 4 2-1 8-3 B27 2 2-4 68 7A4B-1",
      "3F-7 15 6 19 23 1 24 335-22 1-6 5-8 128B1-19 1A-6 1-11 1A-19 1A-3 1 1-6 1-A 1A-19 1A-19",
      "1A-19 1A-19 1A-19 1A-19 1A-19 1A-19 1A-1B 1C-18 1-5 1A-18 1-5 1A-18 1-5 1A-18 1-5 1A-18",
      "1-5 1 734-9 1-13 6-5"]),
   ("cwu changeswhenuppercased", "Ll Lt",
     ["345 1E2A-F 350-19"],
     ["138 54 D E-1 E 3 62 12-5 1B 2 1 2-2 2 1 2 5-1 1 2-1 1-6 1-1 1 2-2 6-4 1 1-7 2-10 14C 163",
      "27 1777-2B 3F-C 2-2 1-F 1-B 101-1 1 26A 3-1 3 1B 4 4 2-1 8-3 B27 2 2-4 68 7A4B-1 3F-7 15 6",
      "19 23 1 24 335-22 1-6 5-8 128B1-19 1A-6 1-11 1A-19 1A-3 1 1-6 1-A 1A-19 1A-19 1A-19 1A-19",
      "1A-19 1A-19 1A-19 1A-19 1A-1B 1C-18 1-5 1A-18 1-5 1A-18 1-5 1A-18 1-5 1A-18 1-5 1 734-9",
      "1-13 6-5"]),
   ("dash", "Pd", ["2053 27 F 186"], []),
   ("di defaultignorablecodepoint", "Cf",
     ["34F E0F-1 653-1 55-2 1 855 10FE CC9B-F 190 4F-8 D0007 1-1D 60-F7F"],
     ["600-5 D7 31 180-1 50 F716-2 10C1 F 2362-F"]),
   ("dep deprecated", "", ["149 529 903 1 829-1 8C5-5 2B9-1 DDCD6"], []),
   ("dia diacritic", "Sk",
     ["B7 1F8-11 4-B E-4 7 1 11-4E 1-7 5-5 11 5 108-4 D1 37-10 1-1A 1 1-1 1 86-7 4-1 86-1 4-1 3-2",
      "43-1A 5B-A 3A-A 22-1 7E-7 29-9 10-1B 3D 10 3-3 1C 4A 10 6E 10 6E 10 2F-2 3C 10 7 77 6E 10",
      "6E 10 6D-1 10 7C 7C-5 1 6B D-4 4B-1 1B 1 1 4-1 42-2 1-1 3E 70 1-1 28-1 4-4 19-6 1 A-1",
      "2C1-2 3B4-1 B3-A 9 15B-2 139-7 2 30-E 2-A 68 F 26-8 36-1 8A-1 40-5 52-18 4 6 2-2 32-3E",
      "59-B 25-A EEF-2 13D 1FA-5 69-1 61 7572 C-1 1 1C-1 52-1 25-8 68 6F-1 CA 1B-11 39-3 24 5F C",
      "24 95-2 41-3 33 65-3 9 82-1 4F30 301-F 140 2D-1 340 49F-5 1-29 1-8 32A-1 23B-5 1D5-2 46-A",
      "31-3 C0 29 48-1 78-1 3E 4C 9-2 68-1 B2-1 51 10 18-6 3-4 CD 3 7B-1 FB-1 7E 76-1 73 10D-1",
      "102-1 4 9C 53 12 51 1A5 102 1-1 51 16AF-E 369A-4 3B-6 458-10 50-1 3FFE-3 1-6 1-1 1F01-2D",
      "2-16 220-2 3-5 8-7 2-6 1E-3 E82-3D C2-6 177 3D-3 5E0-6 6D-2 1-2"],
     ["888 F329-10 F838-4"]),
   ("emoji", "",
     ["23 6 5-9 6F 4 1F8D C D8 16 5A-5 F-1 16F-1 C A6 19-A 4-2 C7 E7-1 A 9 3A-3 1-4 9 2 2-1 2 4 2",
      "1-1 2 3 3-1 8-2 5 1 5-B B-1 2 1-1 1 12 2-1 12-5 1 1-1 3-1 5 2-1 4-1 B-1 5-1 2 5-1 1 1-1",
      "14-1 5-5 1-3 2 4 2 2-5 1 2 1 1 6 3 6 A-1 F 2 4 1 4-2 1 B-1 30-2 9 E E 174-1 1CF-2 13-1 33",
      "4 4DA C 259 1 1BD6A CA A0-1 C-1 E 2-9 4B-19 1-1 17 14 2-8 15-1 AE-21 2-6F 2-1 1-2 2-52 2-2",
      "1-106 1-3E B-5 1-17 7-1 2-7 C 2-3 2 4-1 D-1 2 8-1 9 5-2 C-2 8-2 2 1 4 6 3 6-55 30-45 5-7",
      "2-2 4-9 3 1-1 3 2-9 E3-B 4 11B-2E 1-9 1-B8 70-C 3-8 7-2D 1-6 8-D 4-8 7-8"],
     []),
   ("ecomp emojicomponent", "", ["23 6 5-9 1FD3 D5 DD2B F3D6-19 1FB-4 5B0-3 C066C-5F"], []),
   ("emod emojimodifier", "", ["1F3FB-4"], []),
   ("ebase emojimodifierbase", "",
     ["261D DB 10-3 1CC77 3C-2 2 2-2 75-1 2-A 15-12 3 4-2 1-2 7 1 18 C9-1 4 15 4-1 AE-2 3-4 53",
      "10-2 9 B 23F 2 8-7 6 9-9 2-2 38 3D-1 1-1 1 11-2 1-C E5-2 2A-8"],
     []),
   ("epres emojipresentation", "",
     ["231A-1 CD-3 3 2 209-1 15-1 32-B 2B 13 D 8-1 11-1 5-1 8 5 15 7-1 1 4 2 7 4-1 1C 23 1 4-2 1",
      "3D-2 18 E 35B-1 33 4 1C4AE CA BE 2-9 4B-19 1 18 14 2-4 1-2 15-1 AE-20 C-8 1-45 1-15 C-2A",
      "4-4 C-10 3 3-46 1 1-BA 2-3E D-3 1-17 12 1A-1 D 56-54 30-45 6 3-2 2-2 4-3 B-1 7-8 E3-B 4",
      "11B-2E 1-9 1-B8 70-C 3-8 7-2D 1-6 8-D 4-8 7-8"],
     []),
   ("extpict extendedpictographic", "",
     ["A9 4 1F8D C D8 16 5A-5 F-1 16F-1 C 5F 46 19-A 4-2 C7 E7-1 A 9 3A-3 1-5 1-B 1-71 A-75 2-A 1",
      "1 6 3 6 A-1 F 2 4 1 4-2 1 B-4 2D-2 9 E E 174-1 1CF-2 13-1 33 4 4DA C 259 1 1BD66-FF D-2 1F",
      "3C-5 C-1 E 2-9 12-38 1B-E A 14 2-8 1-3 9-1B1 5-13D 8-109 30-7F 74-B 55-2A C-3 38-7 A-5",
      "28-7 1E-51 C-2E 1-9 1-1B8 100-3FD"],
     []),
   ("ext extender", "",
     ["B7 218-1 36E 1B9 35A 2F0 7F 943 38 263 18E 44 1389 2B-4 67-1 5D-2 6F16 5F6 3C2 16 89 6C",
      "15-1 547B 810-1 BDA 268-2 4CF 50A9-1 49C-1 1 7158-1 806-2"],
     []),
   ("grbase graphemebase", "Lu Ll Lt Lm Lo Mc Nd Nl No Pc Pd Ps Pe Pi Pf Po Sm Sc Sk So Zs",
     [],
     ["9BE 18 166 18 66 18 EA 12-1 67 18 77 F D55 14F8-1 CF6E-1 139E 18 158 C F1 380 B834 8-4"]),
   ("grext graphemeextend", "Mn Me",
     ["9BE 18 166 18 66 18 EA 12-1 67 18 77 F D55 4D6 1021-1 CF6E-1 139E 18 158 C F1 380 B834 8-4",
      "C2EAD-5F"],
     []),
   ("hex hexdigit", "", ["30-9 7-5 1A-5 FEA9-9 7-5 1A-5"], []),
   ("idsb idsbinaryoperator", "", ["2FF0-1 2-7"], []),
   ("idst idstrinaryoperator", "", ["2FF2-1"], []),
   ("idc idcontinue", "Lu Ll Lt Lm Lo Mn Mc Nd Nl Pc", ["B7 2CF FE1-8 668 73D 15 F6C-1"], ["2E2F"]),
   ("ids idstart", "Lu Ll Lt Lm Lo Nl", ["1885-1 891 15 F6C-1"], ["2E2F"]),
   ("ideo ideographic", "",
     ["3006-1 19-8 E-2 3C5-19BF 40-51FF 5900-16D 2-69 750A 1B-17F7 8-4D5 2A-8 2467-18B 4D04-A6DF",
      "20-1039 6-DD 2-1681 E-1D30 C1F-21D 5E2-134A 5-105F"],
     []),
   ("joinc joincontrol", "", ["200C-1"], []),
   ("loe logicalorderexception", "", ["E40-4 7B-4 AF0-2 2 90FA-1 2 1-1"], []),
   ("lower lowercase", "Ll",
     ["AA F 1F5-8 7-1 1E-4 60 34 D81 C2F-3E D 22-24 2B1 D 10-C D3-F 350-19 792-1 7A1E-1 D2 81-2",
      "3-1 362-3 9 5C16 2-2 1-29 1-8 D875-3D"],
     []),
   ("math", "Sm",
     ["5E 371-2 2 1A-1 2-1 1C20 1B-2 B 20-3 18-1 E-1 41-C 4 3-1 4-4 12 4 2-9 1 3-4 6 3-1 2-1 1-2",
      "1-5 3-3 5-4 4B-4 2-3 1-1 1-1 1 1-4 2-1 4-1 4-11 2-1 1 1-6 1 6-1 122-3 A8-1 1 18 11 1BD-1",
      "C-8 5-4 5-1 2-1 3-4 E 1 2-5 18-1 39 1 1D-3 9-1 156-1 1F-9 193-15 3F-3 20-1 D463 1 4 D3 1",
      "D4C1-54 1-46 1-1 2 2-1 2-3 1-B 1 1-6 1-40 1-3 2-7 1-6 1-1B 1-3 1-4 1 3-6 1-153 2-18 1-18",
      "1-1E 1-18 1-1E 1-18 1-1E 1-18 1-1E 1-18 1-7 2-31 1600-3 1-1A 1-1 1 2 1-9 1-3 1 1 6 4 1 1",
      "1-2 1-1 1 2 1 1 1 1 1-1 1 2-3 1-6 1-3 1-3 1 1-9 1-10 5-2 1-4 1-10"],
     []),
   ("nchar noncharactercodepoint", "",
     ["FDD0-1F 20E-1 FFFE-1 FFFE-1 FFFE-1 FFFE-1 FFFE-1 FFFE-1 FFFE-1 FFFE-1 FFFE-1 FFFE-1 FFFE-1",
      "FFFE-1 FFFE-1 FFFE-1 FFFE-1 FFFE-1"],
     []),
   ("patsyn patternsyntax", "Ps Pe Pi Pf Sm",
     ["21-6 2 1-3 A-1 3-1 1B 1 1 40-6 1 4 1 5 8 1F50-7 8-7 8-8 2-3 2-2 3-A 1 1-9 136-4 2-3 1-1",
      "1-1 1-6 1-1E 2-1 1 1-1E 10C-7 4-13 2-6 2-50 1-1D 19-27 6-7D A0-B6 1-8 1-35 8-6E 1-F7 2C-2B",
      "40-FF 200-2F 15-1 6-B2 200-1 4-2 2 2-D 2-1 A-17 1-11 8-22 181-2 E-1 8 3 F CE14-1"],
     ["3F6 20F-2 931-3 75D-1 9DD-4 B-4 89 27-4 6 D9DD 2ED-1 1C-F 2-1 10-5 3 1-2 A1-1 1 10-2 1C 1",
      "1D-5 1-1 7E 6-3 D6D4 19 1F 19 1F 19 1F 19 1F 19 172C-1"]),
   ("patws patternwhitespace", "Zl Zp", ["9-4 12 64 1F88-1"], []),
   ("pcm prependedconcatenationmark", "", ["600-5 D7 31 180-1 50 107DA F"], []),
   ("qmark quotationmark", "", ["22 4 83 F 1F5C-7 19-1 E07 1C9-3 D-2 CE21-3 BD 4 5A-1"], []),
   ("radical", "", ["2E80-19 1-58 C-D5"], []),
   ("ri regionalindicator", "", ["1F1E6-19"], []),
   ("sterm sentenceterminal", "",
     ["21 C 10 549 93-2 B4 2B-2 F6 3D 1 3-1 125-1 6E4-1 316 4-1 305 C6-1 CC 5 13A-1 162-3 AE-1",
      "2-1 1D-1 BC-1 41-1 3BC-1 9-2 DE4 D 16-1 1AD 74FC 10E-1 E3 3 17E-1 56-1 5F 98-1 93-2 90-1",
      "F9 5266 3-1 A9 C 10 41 AF4-1 4FD-4 2C-3 BD-1 75-3 7F-2 81-1 6 10-1 58-1 1-1 6C 1A1-1 175-1",
      "5-E 69-1 F9-2 205 1 FB-1 57-1 1A4-1 2B4-1 4A-1 4B29-1 85 41-1 B 353 4E06 1DE8"],
     []),
   ("sd softdotted", "",
     ["69-1 C4 119 1E 34 14 140 62 1 1909 33 D 3 84 9D 1A5 D6-1 B32 1A7A5-1 32-1 32-1 32-1 32-1",
      "32-1 32-1 32-1 32-1 32-1 32-1 32-1 32-1 886 131-1 1A"],
     []),
   ("term terminalpunctuation", "",
     ["21 A 1 B-1 3 33E 8 201 39 48 E 1-2 B4 2B-A 1 EB-1 36-E 1F 105-1 4F4-1 AC 4-5 137-1 315-7",
      "305 7C-2 47-1 9D-2 3 27-3 2-1 13A-1 162-3 AE-1 1-2 1D-1 BC-4 3E-1 3BC-1 9-2 DE4 D 4 A 1-1",
      "3-1 1AC-1 74FB-1 10D-2 E3-4 17E-1 56-1 5F 97-2 93-2 7F 10-1 F9 5264-2 1-3 A9 A 1 B-1 3 41",
      "2 43A 30 486 C7 136-1 98-5 44-5 59-3 3B8-4 2C-3 BD-6 70-3 7F-2 81-1 6 10-1 58-4 6C 1A1-2",
      "C-1 166-3 3-E 69-1 F9-2 205 1 FB-1 57-1 4-1 19E-2 2D 285-1 4A-1 52B-4 45F9-1 85 41-2 A",
      "352-1 4E06 1DE7-3"],
     []),
   ("uideo unifiedideograph", "",
     ["3400-19BF 40-51FF 5A0E-1 1 1-1 A 1 1-1 2-2 105D6-A6DF 20-1039 6-DD 2-1681 E-1D30 141F-134A",
      "5-105F"],
     []),
   ("upper uppercase", "Lu", ["2160-F 346-19 1CC60-19 6-19 6-19"], []),
   ("vs variationselector", "", ["180B-2 1 E5F0-F D02F0-EF"], []),
   ("wspace whitespace space", "Zs Zl Zp", ["9-4 77"], []),
   ("xidc xidcontinue", "Lu Ll Lt Lm Lo Mn Mc Nd Nl Pc",
     ["B7 2CF FE1-8 668 73D 15"], ["37A 2AB4 CE2E-5 196-1 74 1 1 1 1 1 1 1"]),
   ("xids xidstart", "Lu Ll Lt Lm Lo Nl",
     ["1885-1 891 15"], ["37A AB8 7F 1F7B CE2E-5 196-1 74 1 1 1 1 1 1 1 11F-1"])]

def names : List (List String × Property) :=
  table.map fun (names, categories, plus, minus) =>
    (words [names], .mixed (words [categories]) (readRanges plus) (readRanges minus))

def ofPlainName? (plain : String) : Option Property :=
  (names.find? fun (known, _) => known.contains plain).map Prod.snd

def alphabetic : Property := (ofPlainName? "alphabetic").getD .any

def joinControl : Property := (ofPlainName? "joincontrol").getD .any

/-- The character is one of the first 128. -/
def ascii : Property := .mixed [] [(0, 0x7F)] []

/-- A name without what does not count in it. -/
def plainName (name : String) : String :=
  let cs := name.toList
  let rest :=
    match cs with
    | i :: s :: rest => if i.toLower == 'i' && s.toLower == 's' then rest else cs
    | _ => cs
  let plain := (rest.filter fun c => c != ' ' && c != '_' && c != '-' && c.toNat < 0x80).map
    Char.toLower
  if plain == ['c'] && rest.length < cs.length then "isc" else String.ofList plain

/-- The property to be of a category, given by its plain name. -/
def ofCategory? (plain : String) : Option Property :=
  match plain with
  | "any" => some .any
  | "assigned" => some .assigned
  | "ascii" => some ascii
  | _ => (categories? plain).map fun codes => .mixed codes [] []

/-- The property to belong to a script, given by its plain name. -/
def ofScript? (plain : String) : Option Property :=
  (scriptCode? plain).map .script

/-- The property with a name, which may also be the name of a category or of a script. -/
def named? (name : String) : Option Property :=
  let plain := plainName name
  ofPlainName? plain <|> ofCategory? plain <|> ofScript? plain

/-- The property to have the category or the script with a name. -/
def valued? (name value : String) : Option Property :=
  let plain := plainName value
  match plainName name with
  | "gc" => ofCategory? plain
  | "generalcategory" => ofCategory? plain
  | "sc" => ofScript? plain
  | "script" => ofScript? plain
  | _ => none

end Property

end Snowbank.Text
