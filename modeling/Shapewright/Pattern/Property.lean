/-!
# Unicode properties in patterns

The names of properties and of their values that a pattern may use. Names are compared without
regard to case, blanks, hyphens, underscores and a leading `is`. The tables give them in that
reduced form, long and short.

A name alone can be that of a category, of a script or of a property that a character has or has
not. With a value behind it, it must be the name of a property that has values. Which characters
have a property is of no concern here, since all that is asked of a pattern is whether it is one.
-/

namespace Shapewright
namespace Pattern
namespace Property

/-- The words of a text, as the tables are written. -/
def words (s : String) : List String := s.splitOn " "

/-- Properties that a character has or has not. -/
def binary : List String :=
  words ("ahex asciihexdigit alpha alphabetic bidic bidicontrol ci caseignorable cased cwcf "
    ++ "changeswhencasefolded cwcm changeswhencasemapped cwl changeswhenlowercased cwt "
    ++ "changeswhentitlecased cwu changeswhenuppercased dash di defaultignorablecodepoint dep "
    ++ "deprecated dia diacritic emoji ecomp emojicomponent emod emojimodifier ebase "
    ++ "emojimodifierbase epres emojipresentation extpict extendedpictographic ext extender "
    ++ "grbase graphemebase grext graphemeextend grlink graphemelink hex hexdigit hyphen idsb "
    ++ "idsbinaryoperator idst idstrinaryoperator idsu idsunaryoperator idcompatmathstart "
    ++ "idcompatmathcontinue idc idcontinue ids idstart ideo ideographic joinc joincontrol loe "
    ++ "logicalorderexception lower lowercase math mcm modifiercombiningmark nchar "
    ++ "noncharactercodepoint oalpha otheralphabetic odi otherdefaultignorablecodepoint ogrext "
    ++ "othergraphemeextend oidc otheridcontinue oids otheridstart olower otherlowercase omath "
    ++ "othermath oupper otheruppercase patsyn patternsyntax patws patternwhitespace pcm "
    ++ "prependedconcatenationmark qmark quotationmark radical ri regionalindicator sterm "
    ++ "sentenceterminal sd softdotted term terminalpunctuation uideo unifiedideograph upper "
    ++ "uppercase vs variationselector wspace whitespace space xidc xidcontinue xids xidstart")

/-- The general categories of characters. -/
def generalCategories : List String :=
  words ("c other cc control cntrl cf format cn unassigned co privateuse l letter lc casedletter "
    ++ "ll lowercaseletter lm modifierletter lo otherletter lt titlecaseletter lu "
    ++ "uppercaseletter m mark combiningmark mc spacingmark me enclosingmark mn nonspacingmark "
    ++ "n number nd decimalnumber digit nl letternumber no othernumber p punctuation punct pc "
    ++ "connectorpunctuation pd dashpunctuation pe closepunctuation pf finalpunctuation pi "
    ++ "initialpunctuation po otherpunctuation ps openpunctuation s symbol sc currencysymbol "
    ++ "sk modifiersymbol sm mathsymbol so othersymbol z separator zl lineseparator zp "
    ++ "paragraphseparator zs spaceseparator any assigned ascii")

/-- The scripts that characters belong to. -/
def scripts : List String :=
  words ("adlm adlam aghb caucasianalbanian ahom arab arabic armi imperialaramaic armn armenian "
    ++ "avst avestan bali balinese bamu bamum bass bassavah batk batak beng bengali bhks "
    ++ "bhaiksuki bopo bopomofo brah brahmi brai braille bugi buginese buhd buhid cakm chakma "
    ++ "cans canadianaboriginal cari carian cham cher cherokee chrs chorasmian copt coptic "
    ++ "qaac cpmn cyprominoan cprt cypriot cyrl cyrillic deva devanagari diak divesakuru dogr "
    ++ "dogra dsrt deseret dupl duployan egyp egyptianhieroglyphs elba elbasan elym elymaic "
    ++ "ethi ethiopic geor georgian glag glagolitic gong gunjalagondi gonm masaramgondi goth "
    ++ "gothic gran grantha grek greek gujr gujarati guru gurmukhi hang hangul hani han hano "
    ++ "hanunoo hatr hatran hebr hebrew hira hiragana hluw anatolianhieroglyphs hmng "
    ++ "pahawhhmong hmnp nyiakengpuachuehmong hung oldhungarian ital olditalic java javanese "
    ++ "kali kayahli kana katakana kawi khar kharoshthi khmr khmer khoj khojki kits "
    ++ "khitansmallscript knda kannada kthi kaithi lana taitham laoo lao latn latin lepc "
    ++ "lepcha limb limbu lina lineara linb linearb lisu lyci lycian lydi lydian mahj mahajani "
    ++ "maka makasar mand mandaic mani manichaean marc marchen medf medefaidrin mend "
    ++ "mendekikakui merc meroiticcursive mero meroitichieroglyphs mlym malayalam modi mong "
    ++ "mongolian mroo mro mtei meeteimayek mult multani mymr myanmar nagm nagmundari nand "
    ++ "nandinagari narb oldnortharabian nbat nabataean newa nkoo nko nshu nushu ogam ogham "
    ++ "olck olchiki orkh oldturkic orya oriya osge osage osma osmanya ougr olduyghur palm "
    ++ "palmyrene pauc paucinhau perm oldpermic phag phagspa phli inscriptionalpahlavi phlp "
    ++ "psalterpahlavi phnx phoenician plrd miao prti inscriptionalparthian rjng rejang rohg "
    ++ "hanifirohingya runr runic samr samaritan sarb oldsoutharabian saur saurashtra sgnw "
    ++ "signwriting shaw shavian shrd sharada sidd siddham sind khudawadi sinh sinhala sogd "
    ++ "sogdian sogo oldsogdian sora sorasompeng soyo soyombo sund sundanese sylo sylotinagri "
    ++ "syrc syriac tagb tagbanwa takr takri tale taile talu newtailue taml tamil tang tangut "
    ++ "tavt taiviet telu telugu tfng tifinagh tglg tagalog thaa thaana thai tibt tibetan tirh "
    ++ "tirhuta tnsa tangsa toto ugar ugaritic vaii vai vith vithkuqi wara warangciti wcho "
    ++ "wancho xpeo oldpersian xsux cuneiform yezi yezidi yiii yi zanb zanabazarsquare zinh "
    ++ "inherited qaai zyyy common gara garay gukh gurungkhema krai kiratrai onao olonal sunu "
    ++ "sunuwar todr todhri tutg tulutigalari")

/-- The versions of the standard in which characters were added. -/
def ages : List String :=
  words ("1.1 v11 2.0 v20 2.1 v21 3.0 v30 3.1 v31 3.2 v32 4.0 v40 4.1 v41 5.0 v50 5.1 v51 5.2 "
    ++ "v52 6.0 v60 6.1 v61 6.2 v62 6.3 v63 7.0 v70 8.0 v80 9.0 v90 10.0 v100 11.0 v110 12.0 "
    ++ "v120 12.1 v121 13.0 v130 14.0 v140 15.0 v150 15.1 v151 16.0 v160")

/-- The values of the property that tells where graphemes end. -/
def graphemeBreaks : List String :=
  words ("cr cn control ex extend l lf lv lvt pp prepend ri regionalindicator sm spacingmark t v "
    ++ "zwj")

/-- The values of the property that tells where words end. -/
def wordBreaks : List String :=
  words ("le aletter cr dq doublequote extend ex extendnumlet fo format hl hebrewletter ka "
    ++ "katakana lf ml midletter mn midnum mb midnumlet nl newline nu numeric ri "
    ++ "regionalindicator sq singlequote wsegspace zwj")

/-- The values of the property that tells where sentences end. -/
def sentenceBreaks : List String :=
  words ("at aterm cl close cr ex extend fo format lf lo lower nu numeric le oletter sc "
    ++ "scontinue st sterm se sep sp up upper")

/-- The reduced form of a name. The one name whose `is` is no prefix is `isc`. -/
def reduced (name : List Char) : List Char :=
  let keep := fun (cs : List Char) =>
    (cs.filter fun c => c.toNat < 0x80 && c != ' ' && c != '_' && c != '-').map Char.toLower
  match name with
  | i :: s :: rest =>
    if (i == 'i' || i == 'I') && (s == 's' || s == 'S') then
      if keep rest = ['c'] then ['i', 's', 'c'] else keep rest
    else keep name
  | _ => keep name

/-- The values of a property that has some. -/
def values (property : String) : List String :=
  match property with
  | "gc" | "generalcategory" => generalCategories
  | "sc" | "script" | "scx" | "scriptextensions" => scripts
  | "age" => ages
  | "gcb" | "graphemeclusterbreak" => graphemeBreaks
  | "wb" | "wordbreak" => wordBreaks
  | "sb" | "sentencebreak" => sentenceBreaks
  | _ => []

/-- Whether there is a property, category or script of this name. -/
def isNamed (name : List Char) : Bool :=
  let n := String.ofList (reduced name)
  binary.contains n || generalCategories.contains n || scripts.contains n

/-- Whether a property has a value of this name. -/
def hasValue (property value : List Char) : Bool :=
  (values (String.ofList (reduced property))).contains (String.ofList (reduced value))

/-- Cuts a text at the first place where `mark` stands. -/
def cutAt (mark : List Char) : List Char → Option (List Char × List Char)
  | [] => none
  | c :: rest =>
    if mark.isPrefixOf (c :: rest) then some ([], (c :: rest).drop mark.length)
    else (cutAt mark rest).map fun (before, after) => (c :: before, after)

/-- Whether what stands between the braces of a property is known: a name, or a name and a value
    with `!=`, `:` or `=` between them. -/
def isKnown (text : List Char) : Bool :=
  match cutAt ['!', '='] text with
  | some (name, value) => hasValue name value
  | none =>
    match cutAt [':'] text with
    | some (name, value) => hasValue name value
    | none =>
      match cutAt ['='] text with
      | some (name, value) => hasValue name value
      | none => isNamed text

end Property
end Pattern
end Shapewright
