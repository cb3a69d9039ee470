import StreamQuery.Unicode.Script

/-!
# Characters of several scripts

Some characters are used in several scripts, or in another than the one they belong to. All others
are used in their own script alone.
-/

namespace StreamQuery.Unicode

/-- Code points with the codes of all scripts that they are used in. -/
def sharedCodePoints : List (List String × CodePointSet) :=
  [(["Avst", "Cari", "Copt", "Dupl", "Elba", "Geor", "Glag", "Gong", "Goth", "Grek", "Hani",
     "Latn", "Lydi", "Mahj", "Perm", "Shaw"], .ofLines ["B7"]),
   (["Beng", "Cyrl", "Deva", "Latn", "Lisu", "Thai", "Toto"], .ofLines ["2BC"]),
   (["Bopo", "Latn"], .ofLines ["2C7 2C9-2CB 2D9"]),
   (["Latn", "Lisu"], .ofLines ["2CD"]),
   (["Latn", "Thai"], .ofLines ["2D7"]),
   (["Cher", "Copt", "Cyrl", "Grek", "Latn", "Perm", "Sunu", "Tale"], .ofLines ["300"]),
   (["Cher", "Cyrl", "Grek", "Latn", "Osge", "Sunu", "Tale", "Todr"], .ofLines ["301"]),
   (["Cher", "Cyrl", "Latn", "Tfng"], .ofLines ["302"]),
   (["Glag", "Latn", "Sunu", "Syrc", "Thai"], .ofLines ["303"]),
   (["Aghb", "Cher", "Copt", "Cyrl", "Goth", "Grek", "Latn", "Osge", "Syrc", "Tfng", "Todr"],
     .ofLines
       ["304"]),
   (["Copt", "Elba", "Glag", "Goth", "Kana", "Latn"], .ofLines ["305"]),
   (["Cyrl", "Grek", "Latn", "Perm", "Tfng"], .ofLines ["306"]),
   (["Copt", "Dupl", "Hebr", "Latn", "Perm", "Syrc", "Tale", "Tfng", "Todr"], .ofLines ["307"]),
   (["Armn", "Cyrl", "Dupl", "Goth", "Grek", "Hebr", "Latn", "Perm", "Syrc", "Tale", "Tfng"],
     .ofLines
       ["308"]),
   (["Latn", "Tfng"], .ofLines ["309"]),
   (["Dupl", "Latn", "Syrc"], .ofLines ["30A"]),
   (["Cher", "Cyrl", "Latn", "Osge"], .ofLines ["30B"]),
   (["Cher", "Latn", "Tale"], .ofLines ["30C"]),
   (["Latn", "Sunu"], .ofLines ["30D 310"]),
   (["Ethi", "Latn"], .ofLines ["30E"]),
   (["Cyrl", "Latn", "Todr"], .ofLines ["311"]),
   (["Grek", "Latn", "Perm", "Todr"], .ofLines ["313"]),
   (["Cher", "Dupl", "Kana", "Latn", "Syrc", "Tfng"], .ofLines ["323"]),
   (["Cher", "Dupl", "Latn", "Syrc"], .ofLines ["324"]),
   (["Latn", "Syrc"], .ofLines ["325 32E"]),
   (["Latn", "Sunu", "Syrc"], .ofLines ["32D"]),
   (["Cher", "Latn", "Syrc"], .ofLines ["330"]),
   (["Aghb", "Cher", "Goth", "Latn", "Sunu", "Syrc", "Thai"], .ofLines ["331"]),
   (["Grek"], .ofLines ["342 345 1DC0-1DC1"]),
   (["Latn", "Osge"], .ofLines ["358"]),
   (["Aghb", "Latn", "Todr"], .ofLines ["35E"]),
   (["Latn"], .ofLines ["363-36F"]),
   (["Copt", "Grek"], .ofLines ["374-375"]),
   (["Cyrl", "Perm"], .ofLines ["483"]),
   (["Cyrl", "Glag"], .ofLines ["484 487 2E43 A66F"]),
   (["Cyrl", "Latn"], .ofLines ["485-486"]),
   (["Armn", "Geor", "Glag"], .ofLines ["589"]),
   (["Arab", "Gara", "Nkoo", "Rohg", "Syrc", "Thaa", "Yezi"], .ofLines ["60C 61B"]),
   (["Arab", "Syrc", "Thaa"], .ofLines ["61C"]),
   (["Adlm", "Arab", "Gara", "Nkoo", "Rohg", "Syrc", "Thaa", "Yezi"], .ofLines ["61F"]),
   (["Adlm", "Arab", "Mand", "Mani", "Ougr", "Phlp", "Rohg", "Sogd", "Syrc"], .ofLines ["640"]),
   (["Arab", "Syrc"], .ofLines ["64B-655 670"]),
   (["Arab", "Thaa", "Yezi"], .ofLines ["660-669"]),
   (["Arab", "Rohg"], .ofLines ["6D4"]),
   (["Beng", "Deva", "Gran", "Gujr", "Guru", "Knda", "Latn", "Mlym", "Nand", "Newa", "Orya",
     "Shrd", "Taml", "Telu", "Tirh"], .ofLines ["951"]),
   (["Beng", "Deva", "Gran", "Gujr", "Guru", "Knda", "Latn", "Mlym", "Newa", "Orya", "Taml",
     "Telu", "Tirh"], .ofLines ["952"]),
   (["Beng", "Deva", "Dogr", "Gong", "Gonm", "Gran", "Gujr", "Guru", "Knda", "Mahj", "Mlym",
     "Nand", "Onao", "Orya", "Sind", "Sinh", "Sylo", "Takr", "Taml", "Telu", "Tirh"],
     .ofLines
       ["964"]),
   (["Beng", "Deva", "Dogr", "Gong", "Gonm", "Gran", "Gujr", "Gukh", "Guru", "Knda", "Limb",
     "Mahj", "Mlym", "Nand", "Onao", "Orya", "Sind", "Sinh", "Sylo", "Takr", "Taml", "Telu",
     "Tirh"], .ofLines ["965"]),
   (["Deva", "Dogr", "Kthi", "Mahj"], .ofLines ["966-96F"]),
   (["Beng", "Cakm", "Sylo"], .ofLines ["9E6-9EF"]),
   (["Guru", "Mult"], .ofLines ["A66-A6F"]),
   (["Gujr", "Khoj"], .ofLines ["AE6-AEF"]),
   (["Gran", "Taml"], .ofLines ["BE6-BF3 11301 11303 1133B-1133C 11FD0-11FD1 11FD3"]),
   (["Knda", "Nand", "Tutg"], .ofLines ["CE6-CEF"]),
   (["Cakm", "Mymr", "Tale"], .ofLines ["1040-1049"]),
   (["Geor", "Glag", "Latn"], .ofLines ["10FB"]),
   (["Runr"], .ofLines ["16EB-16ED"]),
   (["Buhd", "Hano", "Tagb", "Tglg"], .ofLines ["1735-1736"]),
   (["Mong", "Phag"], .ofLines ["1802-1803 1805"]),
   (["Beng", "Deva", "Gran", "Knda"], .ofLines ["1CD0 1CD2"]),
   (["Deva"], .ofLines ["1CD1 1CD4 1CDB 1CDE-1CDF 1CE3-1CE8 1CEC 1CEE-1CF1"]),
   (["Deva", "Gran", "Knda"], .ofLines ["1CD3"]),
   (["Beng", "Deva", "Newa", "Telu", "Tirh"], .ofLines ["1CD5"]),
   (["Beng", "Deva", "Telu"], .ofLines ["1CD6"]),
   (["Deva", "Newa", "Shrd"], .ofLines ["1CD7"]),
   (["Beng", "Deva", "Newa", "Telu"], .ofLines ["1CD8"]),
   (["Deva", "Shrd"], .ofLines ["1CD9 1CDC-1CDD 1CE0"]),
   (["Deva", "Knda", "Mlym", "Orya", "Taml", "Telu"], .ofLines ["1CDA"]),
   (["Beng", "Deva"], .ofLines ["1CE1 1CF5-1CF6"]),
   (["Deva", "Newa", "Tirh"], .ofLines ["1CE2"]),
   (["Deva", "Nand", "Newa"], .ofLines ["1CE9"]),
   (["Beng", "Deva", "Shrd"], .ofLines ["1CEA"]),
   (["Deva", "Newa"], .ofLines ["1CEB"]),
   (["Beng", "Deva", "Newa", "Shrd"], .ofLines ["1CED"]),
   (["Beng", "Deva", "Gran", "Knda", "Mlym", "Nand", "Orya", "Sinh", "Telu", "Tirh", "Tutg"],
     .ofLines
       ["1CF2"]),
   (["Deva", "Gran"], .ofLines ["1CF3 1CF8-1CF9"]),
   (["Deva", "Gran", "Knda", "Tutg"], .ofLines ["1CF4"]),
   (["Beng"], .ofLines ["1CF7"]),
   (["Nand"], .ofLines ["1CFA"]),
   (["Cyrl", "Latn", "Syrc"], .ofLines ["1DF8"]),
   (["Syrc"], .ofLines ["1DFA"]),
   (["Latn", "Mong", "Phag"], .ofLines ["202F"]),
   (["Adlm", "Arab"], .ofLines ["204F"]),
   (["Cari", "Geor", "Glag", "Hung", "Lyci", "Orkh"], .ofLines ["205A"]),
   (["Cari", "Grek", "Hung", "Mero"], .ofLines ["205D"]),
   (["Deva", "Gran", "Latn"], .ofLines ["20F0"]),
   (["Copt", "Latn"], .ofLines ["2E17"]),
   (["Avst", "Orkh"], .ofLines ["2E30"]),
   (["Avst", "Cari", "Geor", "Hung", "Kthi", "Lydi", "Samr"], .ofLines ["2E31"]),
   (["Dupl"], .ofLines ["2E3C 1BCA0-1BCA3"]),
   (["Adlm", "Arab", "Hung"], .ofLines ["2E41"]),
   (["Hani", "Tang"], .ofLines ["2FF0-2FFF 31EF"]),
   (["Bopo", "Hang", "Hani", "Hira", "Kana", "Mong", "Yiii"], .ofLines ["3001"]),
   (["Bopo", "Hang", "Hani", "Hira", "Kana", "Mong", "Phag", "Yiii"], .ofLines ["3002"]),
   (["Bopo", "Hang", "Hani", "Hira", "Kana"],
     .ofLines
       ["3003 3013 301C-301F 3030 3037 FE45-FE46"]),
   (["Hani"],
     .ofLines
       ["3006 303E-303F 3190-319F 31C0-31E5 3220-3247 3280-32B0 32C0-32CB 32FF 3358-3370",
         "337B-337F 33E0-33FE 1D360-1D371 1F250-1F251"]),
   (["Bopo", "Hang", "Hani", "Hira", "Kana", "Mong", "Tibt", "Yiii"], .ofLines ["3008-3009"]),
   (["Bopo", "Hang", "Hani", "Hira", "Kana", "Lisu", "Mong", "Tibt", "Yiii"],
     .ofLines
       ["300A-300B"]),
   (["Bopo", "Hang", "Hani", "Hira", "Kana", "Yiii"],
     .ofLines
       ["300C-3011 3014-301B 30FB FF61-FF65"]),
   (["Bopo", "Hani"], .ofLines ["302A-302D"]),
   (["Hira", "Kana"], .ofLines ["3031-3035 3099-309C 30A0 30FC FF70 FF9E-FF9F"]),
   (["Hani", "Hira", "Kana"], .ofLines ["303C-303D"]),
   (["Hani", "Latn"], .ofLines ["A700-A707"]),
   (["Deva", "Dogr", "Gujr", "Guru", "Khoj", "Knda", "Kthi", "Mahj", "Mlym", "Modi", "Nand",
     "Shrd", "Sind", "Takr", "Tirh", "Tutg"], .ofLines ["A830-A832"]),
   (["Deva", "Dogr", "Gujr", "Guru", "Khoj", "Knda", "Kthi", "Mahj", "Modi", "Nand", "Shrd",
     "Sind", "Takr", "Tirh", "Tutg"], .ofLines ["A833-A835"]),
   (["Deva", "Dogr", "Gujr", "Guru", "Khoj", "Kthi", "Mahj", "Modi", "Sind", "Takr", "Tirh"],
     .ofLines
       ["A836-A837 A839"]),
   (["Deva", "Dogr", "Gujr", "Guru", "Khoj", "Kthi", "Mahj", "Modi", "Shrd", "Sind", "Takr",
     "Tirh"], .ofLines ["A838"]),
   (["Beng", "Deva", "Tutg"], .ofLines ["A8F1"]),
   (["Deva", "Taml"], .ofLines ["A8F3"]),
   (["Kali", "Latn", "Mymr"], .ofLines ["A92E"]),
   (["Bugi", "Java"], .ofLines ["A9CF"]),
   (["Arab", "Nkoo"], .ofLines ["FD3E-FD3F"]),
   (["Arab", "Thaa"], .ofLines ["FDF2 FDFD"]),
   (["Cpmn", "Cprt", "Linb"], .ofLines ["10100-10101"]),
   (["Cprt", "Linb"], .ofLines ["10102 10137-1013F"]),
   (["Cprt", "Lina", "Linb"], .ofLines ["10107-10133"]),
   (["Arab", "Copt"], .ofLines ["102E0-102FB"]),
   (["Mani", "Ougr"], .ofLines ["10AF2"])]

/-- The code points that are used in a script. -/
def Script.usedCodePoints (script : Script) : CodePointSet :=
  let own := script.codePoints.diff (.unionAll (sharedCodePoints.map (·.2)))
  .unionAll (own :: (sharedCodePoints.filter fun (codes, _) =>
    script.names.any codes.contains).map (·.2))

end StreamQuery.Unicode
