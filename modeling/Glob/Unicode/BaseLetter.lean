/-!
Base letters: the first code point of the canonical decomposition of a character, which for a letter
with diacritics is the letter alone.
-/

namespace Glob.Unicode

/-- Each row gives the base letters of the code points from its first number to its second. -/
def baseLetterRows : List (Nat × Nat × String) :=
  [(0xC0, 0xE7, "AAAAAAÆCEEEEIIIIÐNOOOOO×ØUUUUYÞßaaaaaaæc"),
    (0xE8, 0x10F, "eeeeiiiiðnooooo÷øuuuuyþyAaAaAaCcCcCcCcDd"),
    (0x110, 0x137, "ĐđEeEeEeEeEeGgGgGgGgHhĦħIiIiIiIiIıĲĳJjKk"),
    (0x138, 0x13E, "ĸLlLlLl"),
    (0x143, 0x16A, "NnNnNnŉŊŋOoOoOoŒœRrRrRrSsSsSsSsTtTtŦŧUuU"),
    (0x16B, 0x17E, "uUuUuUuUuWwYyYZzZzZz"),
    (0x1A0, 0x1A1, "Oo"),
    (0x1AF, 0x1B0, "Uu"),
    (0x1CD, 0x1F4, "AaIiOoUuUuUuUuUuǝAaAaÆæǤǥGgKkOoOoƷʒjǱǲǳG"),
    (0x1F5, 0x21C, "gǶǷNnAaÆæØøAaAaEeEeIiIiOoOoRrRrUuUuSsTtȜ"),
    (0x21D, 0x21F, "ȝHh"),
    (0x226, 0x233, "AaEeOoOoOoOoYy"),
    (0x340, 0x344, "\u0300\u0301\u0342\u0313\u0308"),
    (0x374, 0x374, "ʹ"),
    (0x37E, 0x37E, ";"),
    (0x385, 0x38A, "¨Α·ΕΗΙ"),
    (0x38C, 0x38C, "Ο"),
    (0x38E, 0x390, "ΥΩι"),
    (0x3AA, 0x3B0, "ΙΥαεηιυ"),
    (0x3CA, 0x3CE, "ιυουω"),
    (0x3D3, 0x3D4, "ϒϒ"),
    (0x400, 0x407, "ЕЕЂГЄЅІІ"),
    (0x40C, 0x40E, "КИУ"),
    (0x419, 0x419, "И"),
    (0x439, 0x439, "и"),
    (0x450, 0x457, "ееђгєѕіі"),
    (0x45C, 0x45E, "киу"),
    (0x476, 0x477, "Ѵѵ"),
    (0x4C1, 0x4C2, "Жж"),
    (0x4D0, 0x4F7, "АаАаӔӕЕеӘәӘәЖжЗзӠӡИиИиОоӨөӨөЭэУуУуУуЧчӶӷ"),
    (0x4F8, 0x4F9, "Ыы"),
    (0x622, 0x626, "\u0627\u0627\u0648\u0627\u064a"),
    (0x6C0, 0x6C2, "\u06d5\u06c1\u06c1"),
    (0x6D3, 0x6D3, "\u06d2"),
    (0x929, 0x929, "न"),
    (0x931, 0x934, "रलळळ"),
    (0x958, 0x95F, "कखगजडढफय"),
    (0x9CB, 0x9CC, "\u09c7\u09c7"),
    (0x9DC, 0x9DD, "ডঢ"),
    (0x9DF, 0x9DF, "য"),
    (0xA33, 0xA33, "ਲ"),
    (0xA36, 0xA36, "ਸ"),
    (0xA59, 0xA5B, "ਖਗਜ"),
    (0xA5E, 0xA5E, "ਫ"),
    (0xB48, 0xB48, "\u0b47"),
    (0xB4B, 0xB4C, "\u0b47\u0b47"),
    (0xB5C, 0xB5D, "ଡଢ"),
    (0xB94, 0xB94, "ஒ"),
    (0xBCA, 0xBCC, "\u0bc6\u0bc7\u0bc6"),
    (0xC48, 0xC48, "\u0c46"),
    (0xCC0, 0xCC0, "\u0cbf"),
    (0xCC7, 0xCC8, "\u0cc6\u0cc6"),
    (0xCCA, 0xCCB, "\u0cc6\u0cc6"),
    (0xD4A, 0xD4C, "\u0d46\u0d47\u0d46"),
    (0xDDA, 0xDDE, "\u0dd9\u0ddb\u0dd9\u0dd9\u0dd9"),
    (0xF43, 0xF43, "ག"),
    (0xF4D, 0xF4D, "ཌ"),
    (0xF52, 0xF52, "ད"),
    (0xF57, 0xF57, "བ"),
    (0xF5C, 0xF5C, "ཛ"),
    (0xF69, 0xF69, "ཀ"),
    (0xF73, 0xF78, "\u0f71\u0f74\u0f71\u0fb2\u0f77\u0fb3"),
    (0xF81, 0xF81, "\u0f71"),
    (0xF93, 0xF93, "\u0f92"),
    (0xF9D, 0xF9D, "\u0f9c"),
    (0xFA2, 0xFA2, "\u0fa1"),
    (0xFA7, 0xFA7, "\u0fa6"),
    (0xFAC, 0xFAC, "\u0fab"),
    (0xFB9, 0xFB9, "\u0f90"),
    (0x1026, 0x1026, "ဥ"),
    (0x1B06, 0x1B12, "ᬅᬇᬇᬉᬉᬋᬋᬍᬍᬏᬐᬑᬑ"),
    (0x1B3B, 0x1B43, "\u1b3a\u1b3c\u1b3c\u1b3e\u1b3f\u1b3e\u1b3f\u1b42\u1b42"),
    (0x1E00, 0x1E27, "AaBbBbBbCcDdDdDdDdDdEeEeEeEeEeFfGgHhHhHh"),
    (0x1E28, 0x1E4F, "HhHhIiIiKkKkKkLlLlLlLlMmMmMmNnNnNnNnOoOo"),
    (0x1E50, 0x1E77, "OoOoPpPpRrRrRrRrSsSsSsSsSsTtTtTtTtUuUuUu"),
    (0x1E78, 0x1E9B, "UuUuVvVvWwWwWwWwWwXxXxYyZzZzZzhtwyẚſ"),
    (0x1EA0, 0x1EC7, "AaAaAaAaAaAaAaAaAaAaAaAaEeEeEeEeEeEeEeEe"),
    (0x1EC8, 0x1EEF, "IiIiOoOoOoOoOoOoOoOoOoOoOoOoUuUuUuUuUuUu"),
    (0x1EF0, 0x1EF9, "UuYyYyYyYy"),
    (0x1F00, 0x1F15, "ααααααααΑΑΑΑΑΑΑΑεεεεεε"),
    (0x1F18, 0x1F1D, "ΕΕΕΕΕΕ"),
    (0x1F20, 0x1F45, "ηηηηηηηηΗΗΗΗΗΗΗΗιιιιιιιιΙΙΙΙΙΙΙΙοοοοοο"),
    (0x1F48, 0x1F4D, "ΟΟΟΟΟΟ"),
    (0x1F50, 0x1F57, "υυυυυυυυ"),
    (0x1F59, 0x1F59, "Υ"),
    (0x1F5B, 0x1F5B, "Υ"),
    (0x1F5D, 0x1F5D, "Υ"),
    (0x1F5F, 0x1F7D, "ΥωωωωωωωωΩΩΩΩΩΩΩΩααεεηηιιοουυωω"),
    (0x1F80, 0x1FA7, "ααααααααΑΑΑΑΑΑΑΑηηηηηηηηΗΗΗΗΗΗΗΗωωωωωωωω"),
    (0x1FA8, 0x1FB4, "ΩΩΩΩΩΩΩΩααααα"),
    (0x1FB6, 0x1FC4, "ααΑΑΑΑΑ᾽ι᾿῀¨ηηη"),
    (0x1FC6, 0x1FD3, "ηηΕΕΗΗΗ᾿᾿᾿ιιιι"),
    (0x1FD6, 0x1FDB, "ιιΙΙΙΙ"),
    (0x1FDD, 0x1FEF, "῾῾῾υυυυρρυυΥΥΥΥΡ¨¨`"),
    (0x1FF2, 0x1FF4, "ωωω"),
    (0x1FF6, 0x1FFD, "ωωΟΟΩΩΩ´"),
    (0x2000, 0x2001, "\u2002\u2003"),
    (0x2126, 0x212B, "Ω℧ℨ℩KA"),
    (0x219A, 0x219B, "←→"),
    (0x21AE, 0x21AE, "↔"),
    (0x21CD, 0x21CF, "⇐⇔⇒"),
    (0x2204, 0x2204, "∃"),
    (0x2209, 0x220C, "∈∊∋∋"),
    (0x2224, 0x2226, "∣∥∥"),
    (0x2241, 0x2249, "∼≂≃≃≅≆≅≈≈"),
    (0x2260, 0x2262, "=≡≡"),
    (0x226D, 0x2279, "≍<>≤≥≲≳≲≳≶≷≶≷"),
    (0x2280, 0x2289, "≺≻⊂⊃⊂⊃⊆⊇⊆⊇"),
    (0x22AC, 0x22AF, "⊢⊨⊩⊫"),
    (0x22E0, 0x22E3, "≼≽⊑⊒"),
    (0x22EA, 0x22ED, "⊲⊳⊴⊵"),
    (0x2329, 0x232A, "〈〉"),
    (0x2ADC, 0x2ADC, "⫝"),
    (0x304C, 0x3069, "かききくくけけここささししすすせせそそたたちちっつつててとと"),
    (0x3070, 0x307D, "ははひひひふふふへへへほほほ"),
    (0x3094, 0x3094, "う"),
    (0x309E, 0x309E, "ゝ"),
    (0x30AC, 0x30C9, "カキキククケケココササシシススセセソソタタチチッツツテテトト"),
    (0x30D0, 0x30DD, "ハハヒヒヒフフフヘヘヘホホホ"),
    (0x30F4, 0x30FE, "ウヵヶワヰヱヲ・ーヽヽ"),
    (0xF900, 0xF927, "豈更車賈滑串句龜龜契金喇奈懶癩羅蘿螺裸邏樂洛烙珞落酪駱亂卵欄爛蘭鸞嵐濫藍襤拉臘蠟"),
    (0xF928, 0xF94F, "廊朗浪狼郎來冷勞擄櫓爐盧老蘆虜路露魯鷺碌祿綠菉錄鹿論壟弄籠聾牢磊賂雷壘屢樓淚漏累"),
    (0xF950, 0xF977, "縷陋勒肋凜凌稜綾菱陵讀拏樂諾丹寧怒率異北磻便復不泌數索參塞省葉說殺辰沈拾若掠略亮"),
    (0xF978, 0xF99F, "兩凉梁糧良諒量勵呂女廬旅濾礪閭驪麗黎力曆歷轢年憐戀撚漣煉璉秊練聯輦蓮連鍊列劣咽烈"),
    (0xF9A0, 0xF9C7, "裂說廉念捻殮簾獵令囹寧嶺怜玲瑩羚聆鈴零靈領例禮醴隸惡了僚寮尿料樂燎療蓼遼龍暈阮劉"),
    (0xF9C8, 0xF9EF, "杻柳流溜琉留硫紐類六戮陸倫崙淪輪律慄栗率隆利吏履易李梨泥理痢罹裏裡里離匿溺吝燐璘"),
    (0xF9F0, 0xFA17, "藺隣鱗麟林淋臨立笠粒狀炙識什茶刺切度拓糖宅洞暴輻行降見廓兀嗀﨎﨏塚﨑晴﨓﨔凞猪益"),
    (0xFA18, 0xFA3F, "礼神祥福靖精羽﨟蘒﨡諸﨣﨤逸都﨧﨨﨩飯飼館鶴郞隷侮僧免勉勤卑喝嘆器塀墨層屮悔慨憎"),
    (0xFA40, 0xFA67, "懲敏既暑梅海渚漢煮爫琢碑社祉祈祐祖祝禍禎穀突節練縉繁署者臭艹艹著褐視謁謹賓贈辶逸"),
    (0xFA68, 0xFA6D, "難響頻恵𤋮舘"),
    (0xFA70, 0xFA97, "並况全侀充冀勇勺喝啕喙嗢塚墳奄奔婢嬨廒廙彩徭惘慎愈憎慠懲戴揄搜摒敖晴朗望杖歹殺流"),
    (0xFA98, 0xFABF, "滛滋漢瀞煮瞧爵犯猪瑱甆画瘝瘟益盛直睊着磌窱節类絛練缾者荒華蝹襁覆視調諸請謁諾諭謹"),
    (0xFAC0, 0xFAD9, "變贈輸遲醙鉶陼難靖韛響頋頻鬒龜𢡊𢡄𣏕㮝䀘䀹𥉉𥳐𧻓齃龎"),
    (0xFB1D, 0xFB1F, "\u05d9\ufb1e\u05f2"),
    (0xFB2A, 0xFB36, "\u05e9\u05e9\u05e9\u05e9\u05d0\u05d0\u05d0\u05d1\u05d2\u05d3\u05d4\u05d5\u05d6"),
    (0xFB38, 0xFB3C, "\u05d8\u05d9\u05da\u05db\u05dc"),
    (0xFB3E, 0xFB3E, "\u05de"),
    (0xFB40, 0xFB41, "\u05e0\u05e1"),
    (0xFB43, 0xFB44, "\u05e3\u05e4"),
    (0xFB46, 0xFB4E, "\u05e6\u05e7\u05e8\u05e9\u05ea\u05d5\u05d1\u05db\u05e4"),
    (0x105C9, 0x105C9, "𐗒"),
    (0x105E4, 0x105E4, "𐗚"),
    (0x1109A, 0x1109C, "𑂙𑂛𑂛"),
    (0x110AB, 0x110AB, "𑂥"),
    (0x1112E, 0x1112F, "𑄱𑄲"),
    (0x1134B, 0x1134C, "𑍇𑍇"),
    (0x11383, 0x11383, "𑎂"),
    (0x11385, 0x11385, "𑎄"),
    (0x1138E, 0x1138E, "𑎋"),
    (0x11391, 0x11391, "𑎐"),
    (0x113C5, 0x113C5, "𑏂"),
    (0x113C7, 0x113C8, "𑏅"),
    (0x114BB, 0x114BE, "𑒹𑒾𑒹"),
    (0x115BA, 0x115BB, "𑖸𑖹"),
    (0x11938, 0x11938, "𑤵"),
    (0x16121, 0x16128, "𖄡𖄢𖄡𖄡"),
    (0x16D68, 0x16D6A, "𖵧𖵣𖵣"),
    (0x1D15E, 0x1D164, "𝅗𝅘𝅘𝅘𝅘𝅘𝅘"),
    (0x1D1BB, 0x1D1C0, "𝆹𝆺𝆹𝆺𝆹𝆺"),
    (0x2F800, 0x2F827, "丽丸乁𠄢你侮侻倂偺備僧像㒞𠘺免兔兤具𠔜㒹內再𠕋冗冤仌冬况𩇟凵刃㓟刻剆割剷㔕勇勉勤"),
    (0x2F828, 0x2F84F, "勺包匆北卉卑博即卽卿卿卿𠨬灰及叟𠭣叫叱吆咞吸呈周咢哶唐啓啣善善喙喫喳嗂圖嘆圗噑噴"),
    (0x2F850, 0x2F877, "切壮城埴堍型堲報墬𡓤売壷夆多夢奢𡚨𡛪姬娛娧姘婦㛮㛼嬈嬾嬾𡧈寃寘寧寳𡬘寿将当尢㞁屠"),
    (0x2F878, 0x2F89F, "屮峀岍𡷤嵃𡷦嵮嵫嵼巡巢㠯巽帨帽幩㡢𢆃㡼庰庳庶廊𪎒廾𢌱𢌱舁弢弢㣇𣊸𦇚形彫㣣徚忍志忹"),
    (0x2F8A0, 0x2F8C7, "悁㤺㤜悔𢛔惇慈慌慎慌慺憎憲憤憯懞懲懶成戛扝抱拔捐𢬌挽拼捨掃揤𢯱搢揅掩㨮摩摾撝摷㩬"),
    (0x2F8C8, 0x2F8EF, "敏敬𣀊旣書晉㬙暑㬈㫤冒冕最暜肭䏙朗望朡杞杓𣏃㭉柺枅桒梅𣑭梎栟椔㮝楂榣槪檨𣚣櫛㰘次"),
    (0x2F8F0, 0x2F917, "𣢧歔㱎歲殟殺殻𣪍𡴋𣫺汎𣲼沿泍汧洖派海流浩浸涅𣴞洴港湮㴳滋滇𣻑淹潮𣽞𣾎濆瀹瀞瀛㶖灊"),
    (0x2F918, 0x2F93F, "災灷炭𠔥煅𤉣熜𤎫爨爵牐𤘈犀犕𤜵𤠔獺王㺬玥㺸㺸瑇瑜瑱璅瓊㼛甤𤰶甾𤲒異𢆟瘐𤾡𤾸𥁄㿼䀈"),
    (0x2F940, 0x2F967, "直𥃳𥃲𥄙𥄳眞真真睊䀹瞋䁆䂖𥐝硎碌磌䃣𥘦祖𥚚𥛅福秫䄯穀穊穏𥥼𥪧𥪧竮䈂𥮫篆築䈧𥲀糒䊠"),
    (0x2F968, 0x2F98F, "糨糣紀𥾆絣䌁緇縂繅䌴𦈨𦉇䍙𦋙罺𦌾羕翺者𦓚𦔣聠𦖨聰𣍟䏕育脃䐋脾媵𦞧𦞵𣎓𣎜舁舄辞䑫芑"),
    (0x2F990, 0x2F9B7, "芋芝劳花芳芽苦𦬼若茝荣莭茣莽菧著荓菊菌菜𦰶𦵫𦳕䔫蓱蓳蔖𧏊蕤𦼬䕝䕡𦾱𧃒䕫虐虜虧虩蚩"),
    (0x2F9B8, 0x2F9DF, "蚈蜎蛢蝹蜨蝫螆䗗蟡蠁䗹衠衣𧙧裗裞䘵裺㒻𧢮𧥦䚾䛇誠諭變豕𧲨貫賁贛起𧼯𠠄跋趼跰𠣞軔輸"),
    (0x2F9E0, 0x2FA07, "𨗒𨗭邔郱鄑𨜮鄛鈸鋗鋘鉼鏹鐕𨯺開䦕閷𨵷䧦雃嶲霣𩅅𩈚䩮䩶韠𩐊䪲𩒖頋頋頩𩖶飢䬳餩馧駂駾"),
    (0x2FA08, 0x2FA1D, "䯎𩬰鬒鱀鳽䳎䳭鵧𪃎䳸𪄅𪈎𪊑麻䵖黹黾鼅鼏鼖鼻𪘀")]

/-- The leading consonant of a Hangul syllable. The syllables are ordered by their leading
consonant, 588 to each. -/
def leadingConsonant? (c : Char) : Option Char :=
  if 0xAC00 ≤ c.toNat && c.toNat ≤ 0xD7A3 then
    some (Char.ofNat (0x1100 + (c.toNat - 0xAC00) / 588))
  else
    none

def tabledBaseLetter? (c : Char) : Option Char := do
  let (first, _, bases) ← baseLetterRows.find? fun (first, last, _) =>
    first ≤ c.toNat && c.toNat ≤ last
  bases.toList[c.toNat - first]?

/-- The base letter of `c`, which is `c` itself unless it has a decomposition. -/
def baseLetter (c : Char) : Char :=
  (leadingConsonant? c).getD ((tabledBaseLetter? c).getD c)

end Glob.Unicode
