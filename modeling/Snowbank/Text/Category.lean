import Snowbank.Text.Runs

/-!
# General Categories

The general category of the Unicode standard: every character is a letter, a
mark, a number, punctuation, a symbol, a separator or something else, and of
one kind within that. A category is known by its code of two letters, such as
`Lu` for capital letters, where the first letter tells the group.
-/

namespace Snowbank.Text

/-- The characters in order, as runs of one category. -/
def categoryRuns : List Run :=
  readRuns 2 "Cn"
    ["Cc20ZsPo3ScPo3PsPePoSmPoPdPo2NdAPo2Sm3Po2Lu1APsPoPeSkPcSkLl1APsSmPeSmCc21ZsPoSc4SoPoSkSoLo",
     "PiSmCfSoSkSoSmNo2SkLlPo2SkNoLoPfNo3PoLu17SmLu7Ll18SmLl8Lu/Ll1BLuLl2Lu/Ll7LuLl2Lu/Ll17Lu2",
     "Ll/Lu2Ll3Lu2LlLuLlLu2LlLu3Ll2Lu4LlLu2LlLu3Ll3Lu2LlLu2Ll/Lu2LlLu2LlLuLl2LuLlLu2LlLu3LlLuLl",
     "Lu2Ll2LoLuLl3Lo4LuLtLlLuLtLlLuLtLl/Lu8Ll2Lu/Ll8LuLl2LuLtLlLuLlLu3Ll/Lu1DLl7Lu2LlLu2Ll2LuLl",
     "Lu4Ll/Lu4Ll45LoLl1BLm12Sk4LmCSkELm5Sk7LmSkLmSk11Mn70Lu/Ll2LmSkLuLl 2LmLl3PoLu 4Sk2LuPoLu3 1",
     "Lu 1Lu2LlLu11 1Lu9Ll23LuLl2Lu3Ll3Lu/LlBLuLl5LuLlSmLuLlLu2Ll2Lu33Ll30Lu/Ll11SoMn5Me2Lu/Ll1B",
     "Lu2Ll/Lu6Ll2Lu/Ll30 1Lu26 2LmPo6Ll29PoPd 2So2Sc 1Mn2DPdMnPoMn2PoMn2PoMn 8Lo1B 4Lo4Po2 BCf6",
     "Sm3Po2ScPo2So2MnBPoCfPo3Lo20LmLoAMn15NdAPo4Lo2MnLo63PoLoMn7CfSoMn6Lm2Mn2SoMn4Lo2NdALo3So2Lo",
     "PoE 1CfLoMnLo1EMn1B 2Lo59MnBLo ENdALo21Mn9Lm2SoPo3Lm 2MnSc2Lo16Mn4LmMn9LmMn3LmMn5 2PoF 1",
     "Lo19Mn3 2Po 1LoB 5Lo18SkLo6 1Cf2 6Mn8Lo29LmMn18CfMn20McLo36MnMcMnLoMc3Mn8Mc4MnMc2LoMn7LoA",
     "Mn2Po2NdAPoLmLoFMnMc2 1Lo8 2Lo2 2Lo16 1Lo7 1Lo 3Lo4 2MnLoMc3Mn4 2Mc2 2Mc2MnLo 8Mc 4Lo2 1Lo3",
     "Mn2 2NdALo2Sc2No6SoScLoPoMn 2Mn2Mc 1Lo6 4Lo2 2Lo16 1Lo7 1Lo2 1Lo2 1Lo2 2Mn 1Mc3Mn2 4Mn2 2",
     "Mn3 3Mn 7Lo4 1Lo 7NdAMn2Lo3MnPo AMn2Mc 1Lo9 1Lo3 1Lo16 1Lo7 1Lo2 1Lo5 2MnLoMc3Mn5 1Mn2Mc 1",
     "Mc2Mn 2Lo FLo2Mn2 2NdAPoSc 7LoMn6 1MnMc2 1Lo8 2Lo2 2Lo16 1Lo7 1Lo2 1Lo5 2MnLoMcMnMcMn4 2Mc2",
     "2Mc2Mn 7Mn2Mc 4Lo2 1Lo3Mn2 2NdASoLoNo6 AMnLo 1Lo6 3Lo3 1Lo4 3Lo2 1Lo 1Lo2 3Lo2 3Lo3 3LoC 4",
     "Mc2MnMc2 3Mc3 1Mc3Mn 2Lo 6Mc ENdANo3So6ScSo 5MnMc3MnLo8 1Lo3 1Lo17 1Lo10 2MnLoMn3Mc4 1Mn3 1",
     "Mn4 7Mn2 1Lo3 2Lo 2Lo2Mn2 2NdA 7PoNo7SoLoMnMc2PoLo8 1Lo3 1Lo17 1LoA 1Lo5 2MnLoMcMnMc5 1Mn",
     "Mc2 1Mc2Mn2 7Mc2 6Lo2 1Lo2Mn2 2NdA 1Lo2Mc CMn2Mc2Lo9 1Lo3 1Lo29Mn2LoMc3Mn4 1Mc3 1Mc3MnLoSo",
     "4Lo3McNo7Lo3Mn2 2NdANo9SoLo6 1MnMc2 1Lo12 3Lo18 1Lo9 1Lo 2Lo7 3Mn 4Mc3Mn3 1Mn 1Mc8 6NdA 2",
     "Mc2Po CLo30MnLo2Mn7 4ScLo6LmMn8PoNdAPo2 25Lo2 1Lo 1Lo5 1Lo18 1Lo 1LoAMnLo2Mn9Lo 2Lo5 1Lm 1",
     "Mn7 1NdA 2Lo4 20LoSo3PoFSoPoSo3Mn2So6NdANoASo/Mn3Ps/Pe2Mc2Lo8 1Lo24 4MnEMcMn5PoMn2Lo5MnB 1",
     "Mn24 1So8MnSo6 1So2Po5So4Po2 25Lo2BMc2Mn4McMn6McMn2Mc2Mn2LoNdAPo6Lo6Mc2Mn2Lo4Mn3LoMc3Lo2Mc7",
     "Lo3Mn4LoDMnMc2Mn2Mc6MnLoMcNdAMc3MnSo2Lu26 1Lu 5Lu 2Ll2BPoLmLl3Lo149 1Lo4 2Lo7 1Lo 1Lo4 2",
     "Lo29 1Lo4 2Lo21 1Lo4 2Lo7 1Lo 1Lo4 2LoF 1Lo39 1Lo4 2Lo43 2Mn3Po9No14 3Lo10SoA 6Lu56 2Ll6 2",
     "PdLo26CSoPoLo11ZsLo1APsPe 3Lo4BPo3Nl3Lo8 7Lo12Mn3Mc 9Lo13Mn2McPo2 9Lo12Mn2 CLoD 1Lo3 1Mn2 C",
     "Lo34Mn2McMn7Mc8MnMc2MnBPo3LmPo3ScLoMn 2NdA 6NoA 6Po6PdPo4Mn3CfMnNdA 6Lo23LmLo35 7Lo5Mn2Lo22",
     "MnLo 5Lo46 ALo1F 1Mn3Mc4Mn2Mc3 4Mc2MnMc6Mn3 4So 3Po2NdALo1E 2Lo5 BLo2C 4Lo1A 6NdANo 3So22",
     "Lo17Mn2Mc2Mn 2Po2Lo35McMnMcMn7 1MnMcMnMc2Mn8Mc6MnA 2MnNdA 6NdA 6Po7LmPo6 2MnEMeMn10 31Mn4Mc",
     "Lo2FMnMcMn5McMnMc5MnMc2Lo8 3NdAPo7SoAMn9So9Po2 1Mn2McLo1EMcMn4Mc2Mn2McMn3Lo2NdALo2CMnMcMn2",
     "Mc3MnMcMn3Mc2 8Po4Lo24Mc8Mn8Mc2Mn2 3Po5NdA 3Lo3NdALo1ELm6Po2Ll9 7Lu2B 2Lu3Po8 8Mn3PoMnDMc",
     "Mn7Lo4MnLo6MnLo2McMn2Lo 5Ll2CLm3FLlDLmLl22Lm25Mn40Lu/Ll4ALuLl9Lu/Ll30LuLl9Lu8Ll6 2Lu6 2Ll8",
     "Lu8Ll8Lu8Ll6 2Lu6 2Ll8Cn/Lu4Ll8Lu8LlE 2Ll8Lt8Ll8Lt8Ll8Lt8Ll5 1Ll2Lu4LtSkLlSk3Ll3 1Ll2Lu4Lt",
     "Sk3Ll4 2Ll2Lu4 1Sk3Ll8Lu5Sk3 2Ll3 1Ll2Lu4LtSk2 1ZsBCf5Pd6Po2PiPfPsPi2PfPsPiPo8ZlZpCf5ZsPo9",
     "PiPfPo4Pc2Po3SmPsPePoBSmPoPcPoAZsCf5 1CfANoLm 2No6Sm3PsPeLmNoASm3PsPe 1LmD 3Sc21 FMnDMe4Mn",
     "Me3MnC FSo2LuSo4LuSo2LlLu3Ll2Lu3LlSoLuSo2SmLu5So6Lu/So3Lu4SoLlLu4LlLo4LlSo2Ll2Lu2Sm5LuLl4So",
     "SmSo2LlSoNo10Nl23LuLlNl4NoSo2 4Sm5So5Sm2So4SmSo2SmSo2SmSo7SmSo1FSm2So2SmSoSmSo1FSm10CSo8",
     "Ps/Pe2So14Sm2So7PsPeSo51SmSo1ESm19So28Sm6So45 19SoB 15No3CSo4ENo16SoB7SmSo9SmSo36Sm8So6FSm",
     "SoF8Ps/Pe7No1ESo2CSm5PsPeSm1FPs/Pe5Sm10So100Sm83Ps/PeBSm3FPs/Pe2Sm20PsPeSm102So30Sm15So2Sm6",
     "So27 2So20 1So69Lu30Ll30LuLlLu3Ll2Lu/Ll3Lu4LlLuLl2LuLl6Lm2Lu3Ll/Lu31Ll2So6Lu/Ll2Mn3LuLl 5",
     "Po4NoPo2Ll26 1Ll 5Ll 2Lo38 7LmPo EMnLo17 9Lo7 1Lo7 1Lo7 1Lo7 1Lo7 1Lo7 1Lo7 1Lo7 1Mn20Po2",
     "Pi/Pf2Po3PiPfPoPiPfPo9PdPo2PdPoPiPfPo2PiPfPs/Pe4Po5LmPoAPd2Po4PdPoPsPoDSo2Po3Ps/Pe4Pd 22",
     "So1A 1So59 CSoD6 1ASoC 4ZsPo3SoLmLoNlPs/Pe5So2Ps/Pe4PdPsPe2SoNl9Mn4Mc2PdLm5So2Nl3LmLoPoSo2",
     "1Lo56 2Mn2Sk2Lm2LoPdLo5APoLm3Lo 5Lo2B 1Lo5E 1So2No4SoALo20So24 CLo10So1F 1NoASo1ENo8SoNoF",
     "So20NoASo27NoFSo140Lo19C0So40Lo5215LmLo477 3So37 9Lo28Lm6Po2Lo10CLmPo3Lo10NdALo2 14Lu/Ll17",
     "LoMnMe3PoMnAPoLmLu/LlELm2Mn2Lo46NlAMn2Po6 8Sk17Lm9Sk2Lu/Ll6LuLl3Lu/Ll1FLmLl8Lu/Ll2Lu2Ll/Lu4",
     "LlLmSk2Lu/Ll2LoLuLlLuLl3Lu/LlALu5LlLu5Ll/Lu7LlLu4LlLuLl 5LuLl/Cn2Ll/Lu2Ll 18Lm3LuLlLoLm2Ll",
     "Lo7MnLo3MnLo4MnLo17Mc2Mn2McSo4Mn 3No6So2ScSo 6Lo34Po4 8Mc2Lo32Mc10Mn2 8Po2NdA 6Mn12Lo6Po3Lo",
     "PoLo2MnNdALo1CMn8Po2Lo17MnBMc2 BPoLo1D 3Mn3McLo2FMnMc2Mn4Mc2Mn2Mc3PoD 1LmNdA 4Po2Lo5MnLmLo9",
     "NdALo5 1Lo29Mn6Mc2Mn2Mc2Mn2 9Lo3MnLo8MnMc 2NdA 2Po4Lo10LmLo6So3LoMcMnMcLo32MnLoMn3Lo2Mn2Lo5",
     "Mn2LoMnLo 18Lo2LmPo2LoBMcMn2Mc2Po2LoLm2McMn ALo6 2Lo6 2Lo6 9Lo7 1Lo7 1Ll2BSkLm4Ll9LmSk2 4",
     "Ll50Lo23Mc2MnMc2MnMc2PoMcMn 2NdA 6Lo2BA4 CLo17 4Lo31 4Cs800Co1900Lo16E 2Lo6A 26Ll7 CLl5 5Lo",
     "MnLoASmLoD 1Lo5 1Lo 1Lo2 1Lo2 1Lo6CSk11 10Lo16BPePsSo10Lo40 2Lo36 7So 20LoCScSo3Mn10Po7PsPe",
     "Po 6Mn10PoPd2Pc2Ps/Pe8Po2PsPePo4Pc3Po3 1Po4PdPs/Pe3Po3SmPdSm3 1PoScPo2 4Lo5 1Lo87 2Cf 1Po3",
     "ScPo3PsPePoSmPoPdPo2NdAPo2Sm3Po2Lu1APsPoPeSkPcSkLl1APsSmPeSmPsPePoPsPePo2LoALmLo2DLm2Lo1F 3",
     "Lo6 2Lo6 2Lo6 2Lo3 3Sc2SmSkSoSc2 1SoSm4So2 ACf3So2 2LoC 1Lo1A 1Lo13 1Lo2 1LoF 2LoE 22Lo7B 5",
     "Po3 4No2D 3So9Nl35No4So11No2So3 1SoD 3So 2FSo2DMn 82Lo1D 3Lo31 FMnNo1B 4Lo20No4 9Lo14NlLo8",
     "Nl 5Lo26Mn5 5Lo1E 1PoLo24 4Lo8PoNl5 2ALu28Ll28Lo4E 2NdA 6Lu24 4Ll24 4Lo28 8Lo34 BPoLuB 1LuF",
     "1Lu7 1Lu2 1LlB 1LlF 1Ll7 1Ll2 43Lo137 9Lo16 ALo8 18Lm6 1Lm2A 1Lm9 45Lo6 2Lo 1Lo2C 1Lo2 3Lo",
     "2Lo17 1PoNo8Lo17So2No7Lo1F 8No9 30Lo13 1Lo2 5No5Lo16No6 3PoLo1A 5Po 40Lo38 4No2Lo2No10 2",
     "No2ELoMn3 1Mn2 5Mn4Lo4 1Lo3 1Lo1D 2Mn3 4MnNo9 7Po9 7Lo1DNo2PoLo1DNo3 20Lo8SoLo1CMn2 4No5Po7",
     "9Lo36 3Po7Lo16 2No8Lo13 5No8Lo12 7Po4 CNo7 50Lo49 37Lu33 DLl33 7No6Lo24Mn4 8NdA 126No1F 1",
     "Lo2A 1Mn2Pd 2Lo2 4BMn3Lo1DNoALo 8Lo16MnBNo4Po5 16Lo12Mn4Po4 26Lo15No7 14Lo17 9McMnMcLo35MnF",
     "Po7 4No14NdAMnLo2Mn2Lo 9Mn3McLo2DMc3Mn4Mc2Mn2Po2CfPo4Mn ACf 2Lo19 7NdA 6Mn3Lo24Mn5McMn8 1",
     "NdAPo4LoMc2Lo 8Lo23MnPo2Lo 9Mn2McLo30Mc3Mn9Mc2Lo4Po4Mn4PoMcMnNdALoPoLoPo3 1No14 BLo12 1Lo19",
     "Mc3Mn3Mc2MnMcMn2Po6MnLo2Mn 3ELo7 1Lo 1Lo4 1LoF 1LoAPo 6Lo2FMnMc3Mn8 5NdA 6Mn2Mc2 1Lo8 2Lo2",
     "2Lo16 1Lo7 1Lo2 1Lo5 1Mn2LoMc2MnMc4 2Mc2 2Mc3 2Lo 6Mc 5Lo5Mc2 2Mn7 3Mn5 8BLo35Mc3Mn8Mc2Mn3",
     "McMnLo4Po5NdAPo2 1PoMnLo3 1ELo30Mc3Mn6McMnMc4Mn2McMn2Lo2PoLo 8NdA A6Lo2FMc3Mn4 2Mc4Mn2McMn2",
     "Po17Lo4Mn2 22Lo30Mc3Mn8Mc2MnMcMn2Po3Lo BNdA 6PoD 13Lo2BMnMcMnMc2Mn6McMnLoPo 6NdA 36Lo1B 2",
     "Mn3Mc2Mn4McMn5 4NdANo2Po3SoLo7 B9Lo2CMc3Mn9McMn2Po 64Lu20Ll20NdANo9 CLo8 2Lo 2Lo8 1Lo2 1",
     "Lo18Mc6 1Mc2 2Mn2McMnLo/Mc2MnPo3 9NdA 46Lo8 2Lo27Mc3Mn4 2Mn2Mc4MnLoPoLoMc 1BLoMnALo28Mn6Mc",
     "LoMn4Po8Mn 8LoMn6Mc2Mn3Lo2EMnDMcMn2Po3LoPo5 DLo49 7PoA F6Lo9 1Lo25McMn7 1Mn6McMnLoPo5 ANdA",
     "No13 3Po2Lo1E 2Mn16 1McMn7McMn2McMn2 49Lo7 1Lo2 1Lo26Mn6 3Mn 1Mn2 1Mn7LoMn 8NdA 6Lo6 1Lo2 1",
     "Lo20Mc5 1Mn2 1Mc2MnMcMnLo 7NdA 136Lo13Mn2Mc2Po2 7Mn2LoMcLoD 1Lo22Mc2Mn5 3Mc2MnMcMnPoDNdA 56",
     "Lo FNo15So8Sc4So11 DPoLo39A 66Nl6F 1Po5 BLoC4 A4CLo61Po2 DLo430Cf10MnLo6MnF FAALo247 21B9",
     "Lo239 7Lo1F 1NdA 4Po2Lo4F 1NdA 6Lo1E 2Mn5Po ALo30Mn7Po5So4Lm4PoSo ANdA 1No7 1Lo15 5Lo13 2B0",
     "Lu20Ll20No17Po4 65Lo4B 4MnLoMc37 7Mn4LmD 40Lm2PoLmMn BMc2 ELo17F8 8Lo4D6 2ALo9 22E7Lm4 1Lm7",
     "1Lm2 1Lo123 FLo 1DLo3 2Lo ELo4 8Lo18C 904Lo6B 5LoD 3Lo9 7LoA 2SoMn2PoCf4 125CMn2E 2Mn17 9",
     "So74 3CSoF6 ASo27 2So3CMc2Mn3So3Mc6Cf8Mn8So2Mn7So1EMn4So3D 15So42Mn3So 7ANo14 CNo14 CSo57 9",
     "No19 87Lu1ALl1ALu1ALl7 1Ll12Lu1ALl1ALu 1Lu2 2Lu 2Lu2 2Lu4 1Lu8Ll4 1Ll 1Ll7 1LlBLu1ALl1ALu2",
     "1Lu4 2Lu8 1Lu7 1Ll1ALu2 1Lu4 1Lu5 1Lu 3Lu7 1Ll1ALu1ALl1ALu1ALl1ALu1ALl1ALu1ALl1ALu1ALl1A",
     "Lu1ALl1C 2Lu19SmLl19SmLl6Lu19SmLl19SmLl6Lu19SmLl19SmLl6Lu19SmLl19SmLl6Lu19SmLl19SmLl6LuLl 2",
     "Nd32So200Mn37So4Mn32So8MnSoEMnSo2Po5 FMn5 1MnF 450LlALoLl14 6Ll6 D5Mn7 1Mn11 2Mn7 1Mn2 1Mn5",
     "5Lm3E 21Mn 70Lo2D 3Mn7Lm7 2NdA 4LoSo 140Lo1EMn 11Lo2CMn4NdA 5Sc 1D0Lo1BLmMn4NdA 2E6Lo7 1Lo4",
     "1Lo2 1LoF 1LoC5 2No9Mn7 29Lu22Ll22Mn7Lm 4NdA 4Po2 311No3BSoNo3ScNo4 4CNo2DSoNoF C2Lo4 1Lo1B",
     "1Lo2 1Lo 2Lo 1LoA 1Lo4Cn/Lo2 6Lo 4Lo/Cn3Lo3 1Lo2 1Lo 2Lo/Cn5Lo2 1Lo 2Lo4 1Lo7 1Lo4 1Lo4 1Lo",
     "1LoA 1Lo11 5Lo3 1Lo5 1Lo11 34Sm2 10ESo2C 4So64 CSoF 2SoF 1SoF 1So25 ANoDSoA1 38So1D DSo2C 4",
     "So9 7So2 ESo6 9ASoFBSk5So2D8 4So11 3SoD 3So77 4So5F 6SoC 4So FSoC 4So38 8SoA 6So28 8So1E 2",
     "So2 4ESo154 CSoE 2SoD 3So9 7So2E 1So7 8SoE 4So9 7So9 7So93 1So37 25NdA 406LoA6E0 20Lo103A 6",
     "LoDE 2Lo1682 ELo1D31 C1FLo21E 5E2Lo134B 5Lo1060 ADC51Cf 1ECf60 80MnF0 FE10CoFFFE 2CoFFFE 2"]

/-- The code of the category of a character. -/
def category (c : Char) : String :=
  (labelOf categoryRuns c.toNat).getD "Cn"

/-- The names of the categories and of their groups, in small letters and
    without spaces, with the codes they stand for. -/
def categoryNames : List (String × String) :=
  [("c other", "Cc Cf Cn Co Cs"),
   ("cc control cntrl", "Cc"),
   ("cf format", "Cf"),
   ("cn unassigned", "Cn"),
   ("co privateuse", "Co"),
   ("l letter", "Lu Ll Lt Lm Lo"),
   ("lc casedletter", "Lu Ll Lt"),
   ("ll lowercaseletter", "Ll"),
   ("lm modifierletter", "Lm"),
   ("lo otherletter", "Lo"),
   ("lt titlecaseletter", "Lt"),
   ("lu uppercaseletter", "Lu"),
   ("m mark combiningmark", "Mc Me Mn"),
   ("mc spacingmark", "Mc"),
   ("me enclosingmark", "Me"),
   ("mn nonspacingmark", "Mn"),
   ("n number", "Nd Nl No"),
   ("nd decimalnumber digit", "Nd"),
   ("nl letternumber", "Nl"),
   ("no othernumber", "No"),
   ("p punctuation punct", "Pc Pd Pe Pf Pi Po Ps"),
   ("pc connectorpunctuation", "Pc"),
   ("pd dashpunctuation", "Pd"),
   ("pe closepunctuation", "Pe"),
   ("pf finalpunctuation", "Pf"),
   ("pi initialpunctuation", "Pi"),
   ("po otherpunctuation", "Po"),
   ("ps openpunctuation", "Ps"),
   ("s symbol", "Sc Sk Sm So"),
   ("sc currencysymbol", "Sc"),
   ("sk modifiersymbol", "Sk"),
   ("sm mathsymbol", "Sm"),
   ("so othersymbol", "So"),
   ("z separator", "Zl Zp Zs"),
   ("zl lineseparator", "Zl"),
   ("zp paragraphseparator", "Zp"),
   ("zs spaceseparator", "Zs")]

/-- The codes of the categories that a name stands for. -/
def categories? (name : String) : Option (List String) :=
  (categoryNames.find? fun (names, _) => (words [names]).contains name).map fun c => words [c.2]

end Snowbank.Text
