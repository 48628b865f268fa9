import Snowbank.Text.Category

/-!
# Scripts

The script that a character belongs to, by the Unicode standard. A script is
known by its code of four letters, such as `Latn` for the Latin script. What
several scripts share has the code `Zyyy`, and marks that take the script of
what they stand on have the code `Zinh`.
-/

namespace Snowbank.Text

/-- The runs of two tables at once. They have the labels of the second table,
    but `Zzzz` where the first has a category of characters without a script. -/
def cutRuns : List Run → List Run → List Run
  | c :: cs, r :: rs =>
    let label := if ["Cn", "Co", "Cs"].contains c.label then "Zzzz" else r.label
    if c.last < r.last then ⟨c.last, label⟩ :: cutRuns cs (r :: rs)
    else if r.last < c.last then ⟨r.last, label⟩ :: cutRuns (c :: cs) rs
    else ⟨c.last, label⟩ :: cutRuns cs rs
  | _, _ => []
  termination_by cs rs => cs.length + rs.length

/-- The characters in order, as runs of one script. Characters without a script
    are counted with those before them and cut out. -/
def scriptRuns : List Run :=
  cutRuns categoryRuns (readRuns 4 "Zzzz"
    ["Zyyy41Latn1AZyyy6Latn1AZyyy2FLatnZyyyFLatnZyyy5Latn17ZyyyLatn1FZyyyLatn1C1Zyyy27Latn5Zyyy5",
     "Bopo2Zyyy14Zinh70Grek4ZyyyGrek9ZyyyGrek6ZyyyGrekZyyyGrek5ACoptEGrek10Cyrl85Zinh2CyrlAA",
     "Armn60Hebr6FArab5ZyyyArab6ZyyyArabEZyyyArab3ZyyyArab20ZyyyArabAZinhBArab1AZinhArab6CZyyy",
     "Arab22Syrc50Arab30Thaa40Nkoo40Samr40Mand20Syrc10Arab72ZyyyArab1DDeva51Zinh4DevaFZyyy2Deva1A",
     "Beng81Guru80Gujr80Orya81Taml7ETelu80Knda80Mlym81Sinh80Thai3EZyyyThai41Laoo7FTibtD5Zyyy4",
     "Tibt27MymrA0Geor5BZyyyGeor4Hang100Ethi1A0Cher60Cans280Ogam20Runr4BZyyy3Runr12Tglg20Hano15",
     "ZyyyBBuhd20Tagb20Khmr80Mong2Zyyy2MongZyyyMongAACans50Limb50Tale30Talu60Khmr20Bugi20Lana90",
     "Zinh50Bali80Sund40Batk40Lepc50Olck30Cyrl10Geor30Sund10Zinh3ZyyyZinhDZyyyZinh7Zyyy4ZinhZyyy6",
     "ZinhZyyy3Zinh2Zyyy6Latn26Grek5CyrlLatn31Grek5Latn4Grek5LatnDCyrlLatn46GrekZinh40Latn100",
     "Grek100ZyyyCZinh2Zyyy63Latn3ZyyyBLatnZyyy10Latn10Zyyy30Zinh30Zyyy26GrekZyyy3Latn2Zyyy6Latn",
     "Zyyy1BLatnZyyy11Latn29Zyyy677Brai100Zyyy300Glag60Latn20Copt80Geor30Tfng50Ethi60Cyrl20Zyyy80",
     "Hani170Zyyy15HaniZyyyHaniZyyy19Hani9Zinh4Hang2Zyyy8Hani4Zyyy5Hira58Zinh2Zyyy2Hira3Zyyy",
     "Kana5AZyyy2Kana8Bopo2CHang5FZyyy10Bopo20Zyyy30Kana10Hang20Zyyy40Hang1FZyyy51Kana2FZyyy",
     "Kana58ZyyyA8Hani19C0Zyyy40Hani5200Yiii4D0Lisu30Vaii140Cyrl60Bamu60Zyyy22Latn66Zyyy3Latn75",
     "Sylo30Zyyy10Phag40Saur60Deva20Kali2EZyyyKaliRjng30Hang20Java4FZyyyJava10Mymr20Cham60Mymr20",
     "Tavt60Mtei21Ethi2FLatn2BZyyyLatn9GrekLatn4Zyyy6Cher50Mtei40Hang4D00Hani200Latn13ArmnAHebr33",
     "Arab1EEZyyy2ArabC0Zinh10Zyyy10ZinhECyrl2Zyyy40Arab8FZyyy22Latn1AZyyy6Latn1AZyyyBKanaAZyyy",
     "Kana2DZyyy2Hang40Zyyy20Linb100Zyyy40Grek50Zyyy10Grek30Zyyy2DZinh83Lyci20Cari40ZinhZyyy1F",
     "Ital30Goth20Perm30Ugar20Xpeo60Dsrt50Shaw30Osma30Osge50Elba30Aghb40Vith90Lina180Latn80Cprt40",
     "Armi20Palm20Nbat60Hatr20Phnx20Lydi60Mero20Merc60Khar60Sarb20Narb40Mani40Avst40Prti20Phli20",
     "Phlp80Orkh80Hung80Rohg160Arab20Yezi7DArab3Sogo30Sogd40Ougr40Chrs30Elym20Brah80Kthi50Sora30",
     "Cakm50Mahj30Shrd61Sinh1FKhoj80Mult30Sind50Gran3BZinhGranC4Newa80Tirh100Sidd80Modi60Mong20",
     "Takr80Ahom100DogrA0Wara60DiakA0Nand60Zanb50Soyo60Cans10Pauc40Deva100Bhks70Marc90Gonm60",
     "Gong180Maka20KawiB0Lisu10Taml40XsuxF90Cpmn70Egyp1400Hluw2400Bamu240Mroo30Tnsa60Bass30",
     "Hmng340MedfC0PlrdE0TangNshuHani2KitsCHani10Tang1B00Kits200Tang22F0Kana11Hira11FKana12Hira23",
     "Kana1BNshuA90DuplA0Zyyy1260Zinh50Zyyy217Zinh3Zyyy11Zinh8Zyyy2Zinh7Zyyy1EZinh4Zyyy52GrekC0",
     "Zyyy540Sgnw700Latn100Glag30CyrlD0Hmnp190Toto30Wcho210Nagm310Ethi20Mend100Adlm371Zyyy18F",
     "Arab200Zyyy200HiraZyyyDFFHaniC0001ZyyyFFZinh2FF00"])

/-- The code of the script of a character; `Zzzz` where it has none. -/
def script (c : Char) : String :=
  (labelOf scriptRuns c.toNat).getD "Zzzz"

/-- The names of the scripts, in small letters and without spaces; the first of each is its code. -/
def scriptNames : List (List String) :=
  List.map (String.splitOn · "=") (words
    ["adlm=adlam aghb=caucasianalbanian ahom arab=arabic armi=imperialaramaic armn=armenian",
     "avst=avestan bali=balinese bamu=bamum bass=bassavah batk=batak beng=bengali bhks=bhaiksuki",
     "bopo=bopomofo brah=brahmi brai=braille bugi=buginese buhd=buhid cakm=chakma",
     "cans=canadianaboriginal cari=carian cham cher=cherokee chrs=chorasmian copt=coptic=qaac",
     "cpmn=cyprominoan cprt=cypriot cyrl=cyrillic deva=devanagari diak=divesakuru dogr=dogra",
     "dsrt=deseret dupl=duployan egyp=egyptianhieroglyphs elba=elbasan elym=elymaic ethi=ethiopic",
     "geor=georgian glag=glagolitic gong=gunjalagondi gonm=masaramgondi goth=gothic gran=grantha",
     "grek=greek gujr=gujarati guru=gurmukhi hang=hangul hani=han hano=hanunoo hatr=hatran",
     "hebr=hebrew hira=hiragana hluw=anatolianhieroglyphs hmng=pahawhhmong",
     "hmnp=nyiakengpuachuehmong hung=oldhungarian ital=olditalic java=javanese kali=kayahli",
     "kana=katakana kawi khar=kharoshthi khmr=khmer khoj=khojki kits=khitansmallscript",
     "knda=kannada kthi=kaithi lana=taitham laoo=lao latn=latin lepc=lepcha limb=limbu",
     "lina=lineara linb=linearb lisu lyci=lycian lydi=lydian mahj=mahajani maka=makasar",
     "mand=mandaic mani=manichaean marc=marchen medf=medefaidrin mend=mendekikakui",
     "merc=meroiticcursive mero=meroitichieroglyphs mlym=malayalam modi mong=mongolian mroo=mro",
     "mtei=meeteimayek mult=multani mymr=myanmar nagm=nagmundari nand=nandinagari",
     "narb=oldnortharabian nbat=nabataean newa nkoo=nko nshu=nushu ogam=ogham olck=olchiki",
     "orkh=oldturkic orya=oriya osge=osage osma=osmanya ougr=olduyghur palm=palmyrene",
     "pauc=paucinhau perm=oldpermic phag=phagspa phli=inscriptionalpahlavi phlp=psalterpahlavi",
     "phnx=phoenician plrd=miao prti=inscriptionalparthian rjng=rejang rohg=hanifirohingya",
     "runr=runic samr=samaritan sarb=oldsoutharabian saur=saurashtra sgnw=signwriting",
     "shaw=shavian shrd=sharada sidd=siddham sind=khudawadi sinh=sinhala sogd=sogdian",
     "sogo=oldsogdian sora=sorasompeng soyo=soyombo sund=sundanese sylo=sylotinagri syrc=syriac",
     "tagb=tagbanwa takr=takri tale=taile talu=newtailue taml=tamil tang=tangut tavt=taiviet",
     "telu=telugu tfng=tifinagh tglg=tagalog thaa=thaana thai tibt=tibetan tirh=tirhuta",
     "tnsa=tangsa toto ugar=ugaritic vaii=vai vith=vithkuqi wara=warangciti wcho=wancho",
     "xpeo=oldpersian xsux=cuneiform yezi=yezidi yiii=yi zanb=zanabazarsquare zinh=inherited=qaai",
     "zyyy=common"])

def scriptCode? (name : String) : Option String :=
  ((scriptNames.find? (·.contains name)).bind (·.head?)).map String.capitalize

end Snowbank.Text
