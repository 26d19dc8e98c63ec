import TabletopChat.Text.Basic

/-!
# Text/Compatibility — letters that differ in style only

Wide, raised, cursive, ligated and presentation forms of letters stand for the plain letters, and a
letter followed by an accent for the accented letter.

- `Text.plainForm`  : the letters that a letter stands for
- `Text.composed`   : accents joined to the letters before them
- `Text.compatible` : both, for a whole name
-/

namespace TabletopChat

namespace Text

/-! ## Plain forms -/

/-- Runs of letters with other forms: the first letter of a run, and the forms of all of them. -/
def plainForms : List (Nat × String) := [
  (170, "a"), (181, "μ"), (186, "o"), (306, "IJ ij"), (319, "L· l·"), (329, "ʼn"), (383, "s"),
  (452, "DŽ Dž dž LJ Lj lj NJ Nj nj"), (497, "DZ Dz dz"), (688, "h ɦ j r ɹ ɻ ʁ w y"),
  (736, "ɣ l s x ʕ"), (832, "̀ ́"), (835, "̓ ̈́"), (884, "ʹ"), (903, "·"),
  (976, "β θ Υ Ύ Ϋ φ π"), (1008, "κ ρ ς"), (1012, "Θ ε"), (1017, "Σ"), (1415, "եւ"),
  (1653, "اٴ وٴ ۇٴ يٴ"), (2392, "क़ ख़ ग़ ज़ ड़ ढ़ फ़ य़"), (2524, "ড় ঢ়"), (2527, "য়"),
  (2611, "ਲ਼"), (2614, "ਸ਼"), (2649, "ਖ਼ ਗ਼ ਜ਼"), (2654, "ਫ਼"), (2908, "ଡ଼ ଢ଼"), (3635, "ํา"),
  (3763, "ໍາ"), (3804, "ຫນ ຫມ"), (3907, "གྷ"), (3917, "ཌྷ"), (3922, "དྷ"), (3927, "བྷ"),
  (3932, "ཛྷ"), (3945, "ཀྵ"), (3955, "ཱི"), (3957, "ཱུ ྲྀ ྲཱྀ ླྀ ླཱྀ"), (3969, "ཱྀ"),
  (3987, "ྒྷ"), (3997, "ྜྷ"), (4002, "ྡྷ"), (4007, "ྦྷ"), (4012, "ྫྷ"), (4025, "ྐྵ"),
  (4348, "ნ"), (7468, "A Æ B"), (7472, "D E Ǝ G H I J K L M N"),
  (7484, "O Ȣ P R T U W a ɐ ɑ ᴂ b d e ə ɛ ɜ g"),
  (7503, "k m ŋ o ɔ ᴖ ᴗ p t u ᴝ ɯ v ᴥ β γ δ φ χ i r u v β γ ρ φ χ"), (7544, "н"),
  (7579, "ɒ c ɕ ð ɜ f ɟ ɡ ɥ ɨ ɩ ɪ ᵻ ʝ ɭ ᶅ ʟ ɱ ɰ ɲ ɳ ɴ ɵ ɸ ʂ ʃ ƫ ʉ ʊ ᴜ ʋ ʌ"),
  (7611, "z ʐ ʑ ʒ θ"), (7834, "aʾ ṡ"), (8049, "ά"), (8051, "έ"), (8053, "ή"), (8055, "ί"),
  (8057, "ό"), (8059, "ύ"), (8061, "ώ"), (8123, "Ά"), (8126, "ι"), (8137, "Έ"), (8139, "Ή"),
  (8147, "ΐ"), (8155, "Ί"), (8163, "ΰ"), (8171, "Ύ"), (8185, "Ό"), (8187, "Ώ"), (8305, "i"),
  (8319, "n"), (8336, "a e o x ə h k l m n p s t"), (8450, "C"), (8455, "Ɛ"),
  (8458, "g H H H h ħ I I L l"), (8469, "N"), (8473, "P Q R R R"), (8484, "Z"), (8486, "Ω"),
  (8488, "Z"), (8490, "K Å B C"), (8495, "e E F"), (8499, "M o א ב ג ד i"), (8508, "π γ Γ Π"),
  (8517, "D d e i j"),
  (8544, "I II III IV V VI VII VIII IX X XI XII L C D M i ii iii iv v vi vii"),
  (8567, "viii ix x xi xii l c d m"), (11388, "j V"), (11631, "ⵡ"), (12344, "十 卄 卅"),
  (12447, "より"), (12543, "コト"),
  (12593, "ᄀ ᄁ ᆪ ᄂ ᆬ ᆭ ᄃ ᄄ ᄅ ᆰ ᆱ ᆲ ᆳ ᆴ ᆵ ᄚ ᄆ ᄇ ᄈ ᄡ ᄉ ᄊ ᄋ ᄌ ᄍ ᄎ ᄏ ᄐ ᄑ ᄒ ᅡ ᅢ"),
  (12625, "ᅣ ᅤ ᅥ ᅦ ᅧ ᅨ ᅩ ᅪ ᅫ ᅬ ᅭ ᅮ ᅯ ᅰ ᅱ ᅲ ᅳ ᅴ ᅵ ᅠ ᄔ ᄕ ᇇ ᇈ ᇌ ᇎ ᇓ ᇗ ᇙ ᄜ ᇝ ᇟ"),
  (12657, "ᄝ ᄞ ᄠ ᄢ ᄣ ᄧ ᄩ ᄫ ᄬ ᄭ ᄮ ᄯ ᄲ ᄶ ᅀ ᅇ ᅌ ᇱ ᇲ ᅗ ᅘ ᅙ ᆄ ᆅ ᆈ ᆑ ᆒ ᆔ ᆞ ᆡ"), (42652, "ъ ь"),
  (42864, "ꝯ"), (42994, "C F Q"), (43000, "Ħ œ"), (43868, "ꜧ ꬷ ɫ ꭒ"), (43881, "ʍ"),
  (63744, "豈 更 車 賈 滑 串 句 龜 龜 契 金 喇 奈 懶 癩 羅 蘿 螺 裸 邏 樂 洛 烙 珞 落 酪 駱 亂 卵 欄 爛 蘭"),
  (63776, "鸞 嵐 濫 藍 襤 拉 臘 蠟 廊 朗 浪 狼 郎 來 冷 勞 擄 櫓 爐 盧 老 蘆 虜 路 露 魯 鷺 碌 祿 綠 菉 錄"),
  (63808, "鹿 論 壟 弄 籠 聾 牢 磊 賂 雷 壘 屢 樓 淚 漏 累 縷 陋 勒 肋 凜 凌 稜 綾 菱 陵 讀 拏 樂 諾 丹 寧"),
  (63840, "怒 率 異 北 磻 便 復 不 泌 數 索 參 塞 省 葉 說 殺 辰 沈 拾 若 掠 略 亮 兩 凉 梁 糧 良 諒 量 勵"),
  (63872, "呂 女 廬 旅 濾 礪 閭 驪 麗 黎 力 曆 歷 轢 年 憐 戀 撚 漣 煉 璉 秊 練 聯 輦 蓮 連 鍊 列 劣 咽 烈"),
  (63904, "裂 說 廉 念 捻 殮 簾 獵 令 囹 寧 嶺 怜 玲 瑩 羚 聆 鈴 零 靈 領 例 禮 醴 隸 惡 了 僚 寮 尿 料 樂"),
  (63936, "燎 療 蓼 遼 龍 暈 阮 劉 杻 柳 流 溜 琉 留 硫 紐 類 六 戮 陸 倫 崙 淪 輪 律 慄 栗 率 隆 利 吏 履"),
  (63968, "易 李 梨 泥 理 痢 罹 裏 裡 里 離 匿 溺 吝 燐 璘 藺 隣 鱗 麟 林 淋 臨 立 笠 粒 狀 炙 識 什 茶 刺"),
  (64000, "切 度 拓 糖 宅 洞 暴 輻 行 降 見 廓 兀 嗀"), (64016, "塚"), (64018, "晴"),
  (64021, "凞 猪 益 礼 神 祥 福 靖 精 羽"), (64032, "蘒"), (64034, "諸"), (64037, "逸 都"),
  (64042, "飯 飼 館 鶴 郞 隷 侮 僧 免 勉 勤 卑 喝 嘆 器 塀 墨 層 屮 悔 慨 憎 懲 敏 既 暑 梅 海 渚 漢 煮 爫"),
  (64074, "琢 碑 社 祉 祈 祐 祖 祝 禍 禎 穀 突 節 練 縉 繁 署 者 臭 艹 艹 著 褐 視 謁 謹 賓 贈 辶 逸 難 響"),
  (64106, "頻 恵 𤋮 舘"),
  (64112, "並 况 全 侀 充 冀 勇 勺 喝 啕 喙 嗢 塚 墳 奄 奔 婢 嬨 廒 廙 彩 徭 惘 慎 愈 憎 慠 懲 戴 揄 搜 摒"),
  (64144, "敖 晴 朗 望 杖 歹 殺 流 滛 滋 漢 瀞 煮 瞧 爵 犯 猪 瑱 甆 画 瘝 瘟 益 盛 直 睊 着 磌 窱 節 类 絛"),
  (64176, "練 缾 者 荒 華 蝹 襁 覆 視 調 諸 請 謁 諾 諭 謹 變 贈 輸 遲 醙 鉶 陼 難 靖 韛 響 頋 頻 鬒 龜 𢡊"),
  (64208, "𢡄 𣏕 㮝 䀘 䀹 𥉉 𥳐 𧻓 齃 龎"), (64256, "ff fi fl ffi ffl st st"), (64275, "մն մե մի վն մխ"),
  (64285, "יִ"), (64287, "ײַ ע א ד ה כ ל ם ר ת"),
  (64298, "שׁ שׂ שּׁ שּׂ אַ אָ אּ בּ גּ דּ הּ וּ זּ"), (64312, "טּ יּ ךּ כּ לּ"),
  (64318, "מּ"), (64320, "נּ סּ"), (64323, "ףּ פּ"),
  (64326, "צּ קּ רּ שּ תּ וֹ בֿ כֿ פֿ אל ٱ ٱ ٻ ٻ ٻ ٻ پ پ پ پ ڀ ڀ ڀ ڀ ٺ ٺ ٺ"),
  (64353, "ٺ ٿ ٿ ٿ ٿ ٹ ٹ ٹ ٹ ڤ ڤ ڤ ڤ ڦ ڦ ڦ ڦ ڄ ڄ ڄ ڄ ڃ ڃ ڃ ڃ چ چ چ چ ڇ ڇ ڇ"),
  (64385, "ڇ ڍ ڍ ڌ ڌ ڎ ڎ ڈ ڈ ژ ژ ڑ ڑ ک ک ک ک گ گ گ گ ڳ ڳ ڳ ڳ ڱ ڱ ڱ ڱ ں ں ڻ"),
  (64417, "ڻ ڻ ڻ ۀ ۀ ہ ہ ہ ہ ھ ھ ھ ھ ے ے ۓ ۓ"),
  (64467, "ڭ ڭ ڭ ڭ ۇ ۇ ۆ ۆ ۈ ۈ ۇٴ ۋ ۋ ۅ ۅ ۉ ۉ ې ې ې ې ى ى ئا ئا ئە ئە ئو ئو"),
  (64496, "ئۇ ئۇ ئۆ ئۆ ئۈ ئۈ ئې ئې ئې ئى ئى ئى ی ی ی ی ئج ئح ئم ئى ئي بج بح"),
  (64519, "بخ بم بى بي تج تح تخ تم تى تي ثج ثم ثى ثي جح جم حج حم خج خح خم سج"),
  (64541, "سح سخ سم صح صم ضج ضح ضخ ضم طح طم ظم عج عم غج غم فج فح فخ فم فى في"),
  (64563, "قح قم قى قي كا كج كح كخ كل كم كى كي لج لح لخ لم لى لي مج مح مخ مم"),
  (64585, "مى مي نج نح نخ نم نى ني هج هم هى هي يج يح يخ يم يى يي ذٰ رٰ ىٰ"),
  (64612, "ئر ئز ئم ئن ئى ئي بر بز بم بن بى بي تر تز تم تن تى تي ثر ثز ثم ثن"),
  (64634, "ثى ثي فى في قى قي كا كل كم كى كي لم لى لي ما مم نر نز نم نن نى ني"),
  (64656, "ىٰ ير يز يم ين يى يي ئج ئح ئخ ئم ئه بج بح بخ بم به تج تح تخ تم ته"),
  (64678, "ثم جح جم حج حم خج خم سج سح سخ سم صح صخ صم ضج ضح ضخ ضم طح ظم عج عم"),
  (64700, "غج غم فج فح فخ فم قح قم كج كح كخ كل كم لج لح لخ لم له مج مح مخ مم"),
  (64722, "نج نح نخ نم نه هج هم هٰ يج يح يخ يم يه ئم ئه بم به تم ته ثم ثه سم"),
  (64744, "سه شم شه كل كم لم نم نه يم يه ـَّ ـُّ ـِّ طى طي عى عي غى غي سى سي"),
  (64765, "شى شي حى حي جى جي خى خي صى صي ضى ضي شج شح شخ شم شر سر صر ضر طى طي"),
  (64787, "عى عي غى غي سى سي شى شي حى حي جى جي خى خي صى صي ضى ضي شج شح شخ شم"),
  (64809, "شر سر صر ضر شج شح شخ شم سه شه طم سج سح سخ شج شح شخ طم ظم اً اً"),
  (64848, "تجم تحج تحج تحم تخم تمج تمح تمخ جمح جمح حمي حمى سحج سجح سجى سمح"),
  (64864, "سمح سمج سمم سمم صحح صحح صمم شحم شحم شجي شمخ شمخ شمم شمم ضحى ضخم"),
  (64880, "ضخم طمح طمح طمم طمي عجم عمم عمم عمى غمم غمي غمى فخم فخم قمح قمم"),
  (64896, "لحم لحي لحى لجج لجج لخم لخم لمح لمح محج محم محي مجح مجم مخج مخم"),
  (64914, "مجخ همج همم نحم نحى نجم نجم نجى نمي نمى يمم يمم بخي تجي تجى تخي"),
  (64930, "تخى تمي تمى جمي جحى جمى سخى صحي شحي ضحي لجي لمي يحي يجي يمي ممي"),
  (64946, "قمي نحي قمح لحم عمي كمي نجح مخي لجم كمم لجم نجح جحي حجي مجي فمي"),
  (64962, "بحي كمم عجم صمم سخي نجي"),
  (65008, "صلے قلے الله اكبر محمد صلعم رسول عليه وسلم صلى"), (65075, "_ _"), (65101, "_ _ _"),
  (65137, "ـً"), (65143, "ـَ"), (65145, "ـُ"), (65147, "ـِ"), (65149, "ـّ"),
  (65151, "ـْ ء آ آ أ أ ؤ ؤ إ إ ئ ئ ئ ئ ا ا ب ب ب ب ة ة ت ت ت ت ث ث ث ث ج ج"),
  (65183, "ج ج ح ح ح ح خ خ خ خ د د ذ ذ ر ر ز ز س س س س ش ش ش ش ص ص ص ص ض ض"),
  (65215, "ض ض ط ط ط ط ظ ظ ظ ظ ع ع ع ع غ غ غ غ ف ف ف ف ق ق ق ق ك ك ك ك ل ل"),
  (65247, "ل ل م م م م ن ن ن ن ه ه ه ه و و ى ى ي ي ي ي لآ لآ لأ لأ لإ لإ لا"), (65276, "لا"),
  (65296, "0 1 2 3 4 5 6 7 8 9"),
  (65313, "A B C D E F G H I J K L M N O P Q R S T U V W X Y Z"), (65343, "_"),
  (65345, "a b c d e f g h i j k l m n o p q r s t u v w x y z"),
  (65382, "ヲ ァ ィ ゥ ェ ォ ャ ュ ョ ッ ー ア イ ウ エ オ カ キ ク ケ コ サ シ ス セ ソ タ チ ツ テ ト ナ"),
  (65414, "ニ ヌ ネ ノ ハ ヒ フ ヘ ホ マ ミ ム メ モ ヤ ユ ヨ ラ リ ル レ ロ ワ ン ゙ ゚ ᅠ ᄀ ᄁ ᆪ ᄂ ᆬ"),
  (65446, "ᆭ ᄃ ᄄ ᄅ ᆰ ᆱ ᆲ ᆳ ᆴ ᆵ ᄚ ᄆ ᄇ ᄈ ᄡ ᄉ ᄊ ᄋ ᄌ ᄍ ᄎ ᄏ ᄐ ᄑ ᄒ"), (65474, "ᅡ ᅢ ᅣ ᅤ ᅥ ᅦ"),
  (65482, "ᅧ ᅨ ᅩ ᅪ ᅫ ᅬ"), (65490, "ᅭ ᅮ ᅯ ᅰ ᅱ ᅲ"), (65498, "ᅳ ᅴ ᅵ"), (67457, "ː ˑ æ ʙ ɓ"),
  (67463, "ʣ ꭦ ʥ ʤ ɖ ɗ ᶑ ɘ ɞ ʩ ɤ ɢ ɠ ʛ ħ ʜ ɧ ʄ ʪ ʫ ɬ 𝼄 ꞎ ɮ 𝼅 ʎ 𝼆 ø ɶ ɷ q ɺ"),
  (67495, "𝼈 ɽ ɾ ʀ ʨ ʦ ꭧ ʧ ʈ ⱱ"), (67506, "ʏ ʡ ʢ ʘ ǀ ǁ ǂ 𝼊 𝼞"),
  (119808, "A B C D E F G H I J K L M N O P Q R S T U V W X Y Z a b c d e f"),
  (119840, "g h i j k l m n o p q r s t u v w x y z A B C D E F G H I J K L"),
  (119872, "M N O P Q R S T U V W X Y Z a b c d e f g"),
  (119894, "i j k l m n o p q r s t u v w x y z A B C D E F G H I J K L M N"),
  (119926, "O P Q R S T U V W X Y Z a b c d e f g h i j k l m n o p q r s t"),
  (119958, "u v w x y z A"), (119966, "C D"), (119970, "G"), (119973, "J K"),
  (119977, "N O P Q"), (119982, "S T U V W X Y Z a b c d"), (119995, "f"),
  (119997, "h i j k l m n"),
  (120005, "p q r s t u v w x y z A B C D E F G H I J K L M N O P Q R S T U"),
  (120037, "V W X Y Z a b c d e f g h i j k l m n o p q r s t u v w x y z A"), (120069, "B"),
  (120071, "D E F G"), (120077, "J K L M N O P Q"), (120086, "S T U V W X Y"),
  (120094, "a b c d e f g h i j k l m n o p q r s t u v w x y z A B"), (120123, "D E F G"),
  (120128, "I J K L M"), (120134, "O"), (120138, "S T U V W X Y"),
  (120146, "a b c d e f g h i j k l m n o p q r s t u v w x y z A B C D E F"),
  (120178, "G H I J K L M N O P Q R S T U V W X Y Z a b c d e f g h i j k l"),
  (120210, "m n o p q r s t u v w x y z A B C D E F G H I J K L M N O P Q R"),
  (120242, "S T U V W X Y Z a b c d e f g h i j k l m n o p q r s t u v w x"),
  (120274, "y z A B C D E F G H I J K L M N O P Q R S T U V W X Y Z a b c d"),
  (120306, "e f g h i j k l m n o p q r s t u v w x y z A B C D E F G H I J"),
  (120338, "K L M N O P Q R S T U V W X Y Z a b c d e f g h i j k l m n o p"),
  (120370, "q r s t u v w x y z A B C D E F G H I J K L M N O P Q R S T U V"),
  (120402, "W X Y Z a b c d e f g h i j k l m n o p q r s t u v w x y z A B"),
  (120434, "C D E F G H I J K L M N O P Q R S T U V W X Y Z a b c d e f g h"),
  (120466, "i j k l m n o p q r s t u v w x y z ı ȷ"),
  (120488, "Α Β Γ Δ Ε Ζ Η Θ Ι Κ Λ Μ Ν Ξ Ο Π Ρ Θ Σ Τ Υ Φ Χ Ψ Ω"),
  (120514, "α β γ δ ε ζ η θ ι κ λ μ ν ξ ο π ρ ς σ τ υ φ χ ψ ω"),
  (120540, "ε θ κ φ ρ π Α Β Γ Δ Ε Ζ Η Θ Ι Κ Λ Μ Ν Ξ Ο Π Ρ Θ Σ Τ Υ Φ Χ Ψ Ω"),
  (120572, "α β γ δ ε ζ η θ ι κ λ μ ν ξ ο π ρ ς σ τ υ φ χ ψ ω"),
  (120598, "ε θ κ φ ρ π Α Β Γ Δ Ε Ζ Η Θ Ι Κ Λ Μ Ν Ξ Ο Π Ρ Θ Σ Τ Υ Φ Χ Ψ Ω"),
  (120630, "α β γ δ ε ζ η θ ι κ λ μ ν ξ ο π ρ ς σ τ υ φ χ ψ ω"),
  (120656, "ε θ κ φ ρ π Α Β Γ Δ Ε Ζ Η Θ Ι Κ Λ Μ Ν Ξ Ο Π Ρ Θ Σ Τ Υ Φ Χ Ψ Ω"),
  (120688, "α β γ δ ε ζ η θ ι κ λ μ ν ξ ο π ρ ς σ τ υ φ χ ψ ω"),
  (120714, "ε θ κ φ ρ π Α Β Γ Δ Ε Ζ Η Θ Ι Κ Λ Μ Ν Ξ Ο Π Ρ Θ Σ Τ Υ Φ Χ Ψ Ω"),
  (120746, "α β γ δ ε ζ η θ ι κ λ μ ν ξ ο π ρ ς σ τ υ φ χ ψ ω"), (120772, "ε θ κ φ ρ π Ϝ ϝ"),
  (120782, "0 1 2 3 4 5 6 7 8 9 0 1 2 3 4 5 6 7 8 9 0 1 2 3 4 5 6 7 8 9 0 1"),
  (120814, "2 3 4 5 6 7 8 9 0 1 2 3 4 5 6 7 8 9"), (126464, "ا ب ج د"),
  (126469, "و ز ح ط ي ك ل م ن س ع ف ص ق ر ش ت ث خ ذ ض ظ غ ٮ ں ڡ ٯ"), (126497, "ب ج"),
  (126500, "ه"), (126503, "ح"), (126505, "ي ك ل م ن س ع ف ص ق"), (126516, "ش ت ث خ"),
  (126521, "ض"), (126523, "غ"), (126530, "ج"), (126535, "ح"), (126537, "ي"), (126539, "ل"),
  (126541, "ن س ع"), (126545, "ص ق"), (126548, "ش"), (126551, "خ"), (126553, "ض"),
  (126555, "غ"), (126557, "ں"), (126559, "ٯ"), (126561, "ب ج"), (126564, "ه"),
  (126567, "ح ط ي ك"), (126572, "م ن س ع ف ص ق"), (126580, "ش ت ث خ"), (126585, "ض ظ غ ٮ"),
  (126590, "ڡ"), (126592, "ا ب ج د ه و ز ح ط ي"),
  (126603, "ل م ن س ع ف ص ق ر ش ت ث خ ذ ض ظ غ"), (126625, "ب ج د"), (126629, "و ز ح ط ي"),
  (126635, "ل م ن س ع ف ص ق ر ش ت ث خ ذ ض ظ غ"), (130032, "0 1 2 3 4 5 6 7 8 9"),
  (194560, "丽 丸 乁 𠄢 你 侮 侻 倂 偺 備 僧 像 㒞 𠘺 免 兔 兤 具 𠔜 㒹 內 再 𠕋 冗 冤 仌 冬 况 𩇟 凵 刃 㓟"),
  (194592, "刻 剆 割 剷 㔕 勇 勉 勤 勺 包 匆 北 卉 卑 博 即 卽 卿 卿 卿 𠨬 灰 及 叟 𠭣 叫 叱 吆 咞 吸 呈 周"),
  (194624, "咢 哶 唐 啓 啣 善 善 喙 喫 喳 嗂 圖 嘆 圗 噑 噴 切 壮 城 埴 堍 型 堲 報 墬 𡓤 売 壷 夆 多 夢 奢"),
  (194656, "𡚨 𡛪 姬 娛 娧 姘 婦 㛮 㛼 嬈 嬾 嬾 𡧈 寃 寘 寧 寳 𡬘 寿 将 当 尢 㞁 屠 屮 峀 岍 𡷤 嵃 𡷦 嵮 嵫"),
  (194688, "嵼 巡 巢 㠯 巽 帨 帽 幩 㡢 𢆃 㡼 庰 庳 庶 廊 𪎒 廾 𢌱 𢌱 舁 弢 弢 㣇 𣊸 𦇚 形 彫 㣣 徚 忍 志 忹"),
  (194720, "悁 㤺 㤜 悔 𢛔 惇 慈 慌 慎 慌 慺 憎 憲 憤 憯 懞 懲 懶 成 戛 扝 抱 拔 捐 𢬌 挽 拼 捨 掃 揤 𢯱 搢"),
  (194752, "揅 掩 㨮 摩 摾 撝 摷 㩬 敏 敬 𣀊 旣 書 晉 㬙 暑 㬈 㫤 冒 冕 最 暜 肭 䏙 朗 望 朡 杞 杓 𣏃 㭉 柺"),
  (194784, "枅 桒 梅 𣑭 梎 栟 椔 㮝 楂 榣 槪 檨 𣚣 櫛 㰘 次 𣢧 歔 㱎 歲 殟 殺 殻 𣪍 𡴋 𣫺 汎 𣲼 沿 泍 汧 洖"),
  (194816, "派 海 流 浩 浸 涅 𣴞 洴 港 湮 㴳 滋 滇 𣻑 淹 潮 𣽞 𣾎 濆 瀹 瀞 瀛 㶖 灊 災 灷 炭 𠔥 煅 𤉣 熜 𤎫"),
  (194848, "爨 爵 牐 𤘈 犀 犕 𤜵 𤠔 獺 王 㺬 玥 㺸 㺸 瑇 瑜 瑱 璅 瓊 㼛 甤 𤰶 甾 𤲒 異 𢆟 瘐 𤾡 𤾸 𥁄 㿼 䀈"),
  (194880, "直 𥃳 𥃲 𥄙 𥄳 眞 真 真 睊 䀹 瞋 䁆 䂖 𥐝 硎 碌 磌 䃣 𥘦 祖 𥚚 𥛅 福 秫 䄯 穀 穊 穏 𥥼 𥪧 𥪧 竮"),
  (194912, "䈂 𥮫 篆 築 䈧 𥲀 糒 䊠 糨 糣 紀 𥾆 絣 䌁 緇 縂 繅 䌴 𦈨 𦉇 䍙 𦋙 罺 𦌾 羕 翺 者 𦓚 𦔣 聠 𦖨 聰"),
  (194944, "𣍟 䏕 育 脃 䐋 脾 媵 𦞧 𦞵 𣎓 𣎜 舁 舄 辞 䑫 芑 芋 芝 劳 花 芳 芽 苦 𦬼 若 茝 荣 莭 茣 莽 菧 著"),
  (194976, "荓 菊 菌 菜 𦰶 𦵫 𦳕 䔫 蓱 蓳 蔖 𧏊 蕤 𦼬 䕝 䕡 𦾱 𧃒 䕫 虐 虜 虧 虩 蚩 蚈 蜎 蛢 蝹 蜨 蝫 螆 䗗"),
  (195008, "蟡 蠁 䗹 衠 衣 𧙧 裗 裞 䘵 裺 㒻 𧢮 𧥦 䚾 䛇 誠 諭 變 豕 𧲨 貫 賁 贛 起 𧼯 𠠄 跋 趼 跰 𠣞 軔 輸"),
  (195040, "𨗒 𨗭 邔 郱 鄑 𨜮 鄛 鈸 鋗 鋘 鉼 鏹 鐕 𨯺 開 䦕 閷 𨵷 䧦 雃 嶲 霣 𩅅 𩈚 䩮 䩶 韠 𩐊 䪲 𩒖 頋 頋"),
  (195072, "頩 𩖶 飢 䬳 餩 馧 駂 駾 䯎 𩬰 鬒 鱀 鳽 䳎 䳭 鵧 𪃎 䳸 𪄅 𪈎 𪊑 麻 䵖 黹 黾 鼅 鼏 鼖 鼻 𪘀")]

def plainForm (c : Char) : Text :=
  if c.toNat < 128 then [c]
  else
    (plainForms.findSome? fun (first, forms) =>
      if first ≤ c.toNat then (pieces ' ' forms.toList)[c.toNat - first]? else none).getD [c]

/-! ## Accents -/

/-- For each accent the letters that it can be joined to, each followed by the result. -/
def compositions : List (Nat × String) := [
  (768, "AÀ EÈ IÌ OÒ UÙ aà eè iì oò uù ÜǛ üǜ NǸ nǹ ЕЀ ИЍ еѐ иѝ ĒḔ ēḕ ŌṐ ōṑ WẀ wẁ"),
  (768, "ÂẦ âầ ĂẰ ăằ ÊỀ êề ÔỒ ôồ ƠỜ ơờ ƯỪ ưừ YỲ yỳ ἀἂ ἁἃ ἈἊ ἉἋ ἐἒ ἑἓ ἘἚ ἙἛ ἠἢ ἡἣ"),
  (768, "ἨἪ ἩἫ ἰἲ ἱἳ ἸἺ ἹἻ ὀὂ ὁὃ ὈὊ ὉὋ ὐὒ ὑὓ ὙὛ ὠὢ ὡὣ ὨὪ ὩὫ αὰ εὲ ηὴ ιὶ οὸ υὺ ωὼ"),
  (768, "ΑᾺ ΕῈ ΗῊ ϊῒ ΙῚ ϋῢ ΥῪ ΟῸ ΩῺ"),
  (769, "AÁ EÉ IÍ OÓ UÚ YÝ aá eé ií oó uú yý CĆ cć LĹ lĺ NŃ nń RŔ rŕ SŚ sś ZŹ zź"),
  (769, "ÜǗ üǘ GǴ gǵ ÅǺ åǻ ÆǼ æǽ ØǾ øǿ ΑΆ ΕΈ ΗΉ ΙΊ ΟΌ ΥΎ ΩΏ ϊΐ αά εέ ηή ιί ϋΰ οό"),
  (769, "υύ ωώ ϒϓ ГЃ КЌ гѓ кќ ÇḈ çḉ ĒḖ ēḗ ÏḮ ïḯ KḰ kḱ MḾ mḿ ÕṌ õṍ ŌṒ ōṓ PṔ pṕ ŨṸ"),
  (769, "ũṹ WẂ wẃ ÂẤ âấ ĂẮ ăắ ÊẾ êế ÔỐ ôố ƠỚ ơớ ƯỨ ưứ ἀἄ ἁἅ ἈἌ ἉἍ ἐἔ ἑἕ ἘἜ ἙἝ ἠἤ"),
  (769, "ἡἥ ἨἬ ἩἭ ἰἴ ἱἵ ἸἼ ἹἽ ὀὄ ὁὅ ὈὌ ὉὍ ὐὔ ὑὕ ὙὝ ὠὤ ὡὥ ὨὬ ὩὭ"),
  (770, "AÂ EÊ IÎ OÔ UÛ aâ eê iî oô uû CĈ cĉ GĜ gĝ HĤ hĥ JĴ jĵ SŜ sŝ WŴ wŵ YŶ yŷ"),
  (770, "ZẐ zẑ ẠẬ ạậ ẸỆ ẹệ ỌỘ ọộ"),
  (771, "AÃ NÑ OÕ aã nñ oõ IĨ iĩ UŨ uũ VṼ vṽ ÂẪ âẫ ĂẴ ăẵ EẼ eẽ ÊỄ êễ ÔỖ ôỗ ƠỠ ơỡ"),
  (771, "ƯỮ ưữ YỸ yỹ"),
  (772, "AĀ aā EĒ eē IĪ iī OŌ oō UŪ uū ÜǕ üǖ ÄǞ äǟ ȦǠ ȧǡ ÆǢ æǣ ǪǬ ǫǭ ÖȪ öȫ ÕȬ õȭ"),
  (772, "ȮȰ ȯȱ YȲ yȳ ИӢ иӣ УӮ уӯ GḠ gḡ ḶḸ ḷḹ ṚṜ ṛṝ αᾱ ΑᾹ ιῑ ΙῙ υῡ ΥῩ"),
  (774, "AĂ aă EĔ eĕ GĞ gğ IĬ iĭ OŎ oŏ UŬ uŭ УЎ ИЙ ий уў ЖӁ жӂ АӐ аӑ ЕӖ еӗ ȨḜ ȩḝ"),
  (774, "ẠẶ ạặ αᾰ ΑᾸ ιῐ ΙῘ υῠ ΥῨ"),
  (775, "CĊ cċ EĖ eė GĠ gġ Iİ ZŻ zż AȦ aȧ OȮ oȯ BḂ bḃ DḊ dḋ FḞ fḟ HḢ hḣ MṀ mṁ NṄ"),
  (775, "nṅ PṖ pṗ RṘ rṙ SṠ sṡ ŚṤ śṥ ŠṦ šṧ ṢṨ ṣṩ TṪ tṫ WẆ wẇ XẊ xẋ YẎ yẏ ſẛ"),
  (776, "AÄ EË IÏ OÖ UÜ aä eë iï oö uü yÿ YŸ ΙΪ ΥΫ ιϊ υϋ ϒϔ ЕЁ ІЇ её ії АӒ аӓ ӘӚ"),
  (776, "әӛ ЖӜ жӝ ЗӞ зӟ ИӤ иӥ ОӦ оӧ ӨӪ өӫ ЭӬ эӭ УӰ уӱ ЧӴ чӵ ЫӸ ыӹ HḦ hḧ ÕṎ õṏ ŪṺ"),
  (776, "ūṻ WẄ wẅ XẌ xẍ tẗ"),
  (777, "AẢ aả ÂẨ âẩ ĂẲ ăẳ EẺ eẻ ÊỂ êể IỈ iỉ OỎ oỏ ÔỔ ôổ ƠỞ ơở UỦ uủ ƯỬ ưử YỶ yỷ"),
  (778, "AÅ aå UŮ uů wẘ yẙ"), (779, "OŐ oő UŰ uű УӲ уӳ"),
  (780, "CČ cč DĎ dď EĚ eě LĽ lľ NŇ nň RŘ rř SŠ sš TŤ tť ZŽ zž AǍ aǎ IǏ iǐ OǑ oǒ"),
  (780, "UǓ uǔ ÜǙ üǚ GǦ gǧ KǨ kǩ ƷǮ ʒǯ jǰ HȞ hȟ"),
  (783, "AȀ aȁ EȄ eȅ IȈ iȉ OȌ oȍ RȐ rȑ UȔ uȕ ѴѶ ѵѷ"),
  (785, "AȂ aȃ EȆ eȇ IȊ iȋ OȎ oȏ RȒ rȓ UȖ uȗ"),
  (787, "αἀ ΑἈ εἐ ΕἘ ηἠ ΗἨ ιἰ ΙἸ οὀ ΟὈ υὐ ωὠ ΩὨ ρῤ"),
  (788, "αἁ ΑἉ εἑ ΕἙ ηἡ ΗἩ ιἱ ΙἹ οὁ ΟὉ υὑ ΥὙ ωὡ ΩὩ ρῥ ΡῬ"), (795, "OƠ oơ UƯ uư"),
  (803, "BḄ bḅ DḌ dḍ HḤ hḥ KḲ kḳ LḶ lḷ MṂ mṃ NṆ nṇ RṚ rṛ SṢ sṣ TṬ tṭ VṾ vṿ WẈ wẉ"),
  (803, "ZẒ zẓ AẠ aạ EẸ eẹ IỊ iị OỌ oọ ƠỢ ơợ UỤ uụ ƯỰ ưự YỴ yỵ"), (804, "UṲ uṳ"),
  (805, "AḀ aḁ"), (806, "SȘ sș TȚ tț"),
  (807, "CÇ cç GĢ gģ KĶ kķ LĻ lļ NŅ nņ RŖ rŗ SŞ sş TŢ tţ EȨ eȩ DḐ dḑ HḨ hḩ"),
  (808, "AĄ aą EĘ eę IĮ iį UŲ uų OǪ oǫ"), (813, "DḒ dḓ EḘ eḙ LḼ lḽ NṊ nṋ TṰ tṱ UṶ uṷ"),
  (814, "HḪ hḫ"), (816, "EḚ eḛ IḬ iḭ UṴ uṵ"),
  (817, "BḆ bḇ DḎ dḏ KḴ kḵ LḺ lḻ NṈ nṉ RṞ rṟ TṮ tṯ ZẔ zẕ hẖ"),
  (834, "ἀἆ ἁἇ ἈἎ ἉἏ ἠἦ ἡἧ ἨἮ ἩἯ ἰἶ ἱἷ ἸἾ ἹἿ ὐὖ ὑὗ ὙὟ ὠὦ ὡὧ ὨὮ ὩὯ αᾶ ηῆ ιῖ ϊῗ υῦ"),
  (834, "ϋῧ ωῶ"),
  (837, "ἀᾀ ἁᾁ ἂᾂ ἃᾃ ἄᾄ ἅᾅ ἆᾆ ἇᾇ Ἀᾈ Ἁᾉ Ἂᾊ Ἃᾋ Ἄᾌ Ἅᾍ Ἆᾎ Ἇᾏ ἠᾐ ἡᾑ ἢᾒ ἣᾓ ἤᾔ ἥᾕ ἦᾖ ἧᾗ"),
  (837, "Ἠᾘ Ἡᾙ Ἢᾚ Ἣᾛ Ἤᾜ Ἥᾝ Ἦᾞ Ἧᾟ ὠᾠ ὡᾡ ὢᾢ ὣᾣ ὤᾤ ὥᾥ ὦᾦ ὧᾧ Ὠᾨ Ὡᾩ Ὢᾪ Ὣᾫ Ὤᾬ Ὥᾭ Ὦᾮ Ὧᾯ"),
  (837, "ὰᾲ αᾳ άᾴ ᾶᾷ Αᾼ ὴῂ ηῃ ήῄ ῆῇ Ηῌ ὼῲ ωῳ ώῴ ῶῷ Ωῼ"), (1619, "اآ"),
  (1620, "اأ وؤ يئ ەۀ ہۂ ےۓ"), (1621, "اإ"), (2364, "नऩ रऱ ळऴ"), (2494, "েো"), (2519, "েৌ"),
  (2878, "େୋ"), (2902, "େୈ"), (2903, "େୌ"), (3006, "ெொ ேோ"), (3031, "ஒஔ ெௌ"), (3158, "ెై"),
  (3266, "ೆೊ"), (3285, "ಿೀ ೆೇ ೊೋ"), (3286, "ೆೈ"), (3390, "െൊ േോ"), (3415, "െൌ"),
  (3530, "ෙේ ොෝ"), (3535, "ෙො"), (3551, "ෙෞ"), (4142, "ဥဦ"),
  (6965, "ᬅᬆ ᬇᬈ ᬉᬊ ᬋᬌ ᬍᬎ ᬑᬒ ᬺᬻ ᬼᬽ ᬾᭀ ᬿᭁ ᭂᭃ"),
  (12441, "かが きぎ くぐ けげ こご さざ しじ すず せぜ そぞ ただ ちぢ つづ てで とど はば ひび ふぶ へべ ほぼ うゔ ゝゞ カガ キギ"),
  (12441, "クグ ケゲ コゴ サザ シジ スズ セゼ ソゾ タダ チヂ ツヅ テデ トド ハバ ヒビ フブ ヘベ ホボ ウヴ ワヷ ヰヸ ヱヹ ヲヺ ヽヾ"),
  (12442, "はぱ ひぴ ふぷ へぺ ほぽ ハパ ヒピ フプ ヘペ ホポ"), (69818, "𑂙𑂚 𑂛𑂜 𑂥𑂫"), (69927, "𑄱𑄮 𑄲𑄯"),
  (70462, "𑍇𑍋"), (70487, "𑍇𑍌"), (70832, "𑒹𑒼"), (70842, "𑒹𑒻"), (70845, "𑒹𑒾"), (71087, "𑖸𑖺 𑖹𑖻"),
  (71984, "𑤵𑤸")]

/-- The syllable that two letters of an alphabet that writes syllables as blocks form: an initial and
a vowel, or a block without a final and a final. -/
def syllable? (a b : Char) : Option Char :=
  let x := a.toNat
  let y := b.toNat
  if 0x1100 ≤ x ∧ x < 0x1113 ∧ 0x1161 ≤ y ∧ y < 0x1176 then
    some (Char.ofNat (0xAC00 + ((x - 0x1100) * 21 + (y - 0x1161)) * 28))
  else if 0xAC00 ≤ x ∧ x < 0xD7A4 ∧ (x - 0xAC00) % 28 = 0 ∧ 0x11A8 ≤ y ∧ y < 0x11C3 then
    some (Char.ofNat (x + (y - 0x11A7)))
  else none

def compose? (a b : Char) : Option Char :=
  if b.toNat < 128 then none
  else
    match syllable? a b with
    | some c => some c
    | none =>
      compositions.findSome? fun (accent, pairs) =>
        if accent = b.toNat then
          (pieces ' ' pairs.toList).findSome? fun p =>
            match p with
            | [base, c] => if base = a then some c else none
            | _ => none
        else none

def composed (last : Char) : Text → Text
  | [] => [last]
  | c :: cs =>
    match compose? last c with
    | some d => composed d cs
    | none => last :: composed c cs

def compatible (t : Text) : Text :=
  match t.flatMap plainForm with
  | [] => []
  | c :: cs => composed c cs

end Text

end TabletopChat
