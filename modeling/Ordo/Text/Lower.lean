import Ordo.Text.CharClass

namespace Ordo.Text

/-!
# Lower case

The lower-case form of a text, for every script.  A capital letter has one lower-case letter,
with two exceptions: the capital I with a dot becomes two characters, and a capital sigma at
the end of a word becomes the final sigma.

* `lowerRuns` — capitals in runs, with the small letter of the first of each run;
* `lowerChar` — the small letter of a capital, any other character unchanged;
* `lower` — the lower-case form of a text.
-/

/-- Capitals that take turns with their small letters: the first and the last of a run. -/
def alternatingRuns : List (Nat × Nat) :=
  [
    (256,302),(306,310),(313,327),(330,374),(377,381),(386,388),(391,391),(395,395),(401,401),
    (408,408),(416,420),(423,423),(428,428),(431,431),(435,437),(440,440),(444,444),(453,453),
    (456,456),(459,475),(478,494),(498,500),(504,542),(546,562),(571,571),(577,577),(582,590),
    (880,882),(886,886),(984,1006),(1015,1015),(1018,1018),(1120,1152),(1162,1214),(1217,1229),
    (1232,1326),(7680,7828),(7840,7934),(8579,8579),(11360,11360),(11367,11371),(11378,11378),
    (11381,11381),(11392,11490),(11499,11501),(11506,11506),(42560,42604),(42624,42650),
    (42786,42798),(42802,42862),(42873,42875),(42878,42886),(42891,42891),(42896,42898),
    (42902,42920),(42932,42946),(42951,42953),(42960,42960),(42966,42968),(42997,42997)
  ]

/-- Other runs of capitals: the first, how many, and the small letter of the first. -/
def shiftedRuns : List (Nat × Nat × Nat) :=
  [
    (192,23,224),(216,7,248),(376,1,255),(385,1,595),(390,1,596),(393,2,598),(398,1,477),
    (399,1,601),(400,1,603),(403,1,608),(404,1,611),(406,1,617),(407,1,616),(412,1,623),(413,1,626),
    (415,1,629),(422,1,640),(425,1,643),(430,1,648),(433,2,650),(439,1,658),(452,1,454),(455,1,457),
    (458,1,460),(497,1,499),(502,1,405),(503,1,447),(544,1,414),(570,1,11365),(573,1,410),
    (574,1,11366),(579,1,384),(580,1,649),(581,1,652),(895,1,1011),(902,1,940),(904,3,941),
    (908,1,972),(910,2,973),(913,17,945),(931,9,963),(975,1,983),(1012,1,952),(1017,1,1010),
    (1021,3,891),(1024,16,1104),(1040,32,1072),(1216,1,1231),(1329,38,1377),(4256,38,11520),
    (4295,1,11559),(4301,1,11565),(5024,80,43888),(5104,6,5112),(7312,43,4304),(7357,3,4349),
    (7838,1,223),(7944,8,7936),(7960,6,7952),(7976,8,7968),(7992,8,7984),(8008,6,8000),
    (8025,1,8017),(8027,1,8019),(8029,1,8021),(8031,1,8023),(8040,8,8032),(8072,8,8064),
    (8088,8,8080),(8104,8,8096),(8120,2,8112),(8122,2,8048),(8124,1,8115),(8136,4,8050),
    (8140,1,8131),(8152,2,8144),(8154,2,8054),(8168,2,8160),(8170,2,8058),(8172,1,8165),
    (8184,2,8056),(8186,2,8060),(8188,1,8179),(8486,1,969),(8490,1,107),(8491,1,229),(8498,1,8526),
    (8544,16,8560),(9398,26,9424),(11264,48,11312),(11362,1,619),(11363,1,7549),(11364,1,637),
    (11373,1,593),(11374,1,625),(11375,1,592),(11376,1,594),(11390,2,575),(42877,1,7545),
    (42893,1,613),(42922,1,614),(42923,1,604),(42924,1,609),(42925,1,620),(42926,1,618),
    (42928,1,670),(42929,1,647),(42930,1,669),(42931,1,43859),(42948,1,42900),(42949,1,642),
    (42950,1,7566),(65313,26,65345),(66560,40,66600),(66736,36,66776),(66928,11,66967),
    (66940,15,66979),(66956,7,66995),(66964,2,67003),(68736,51,68800),(71840,32,71872),
    (93760,32,93792),(125184,34,125218)
  ]

/-- Runs of capitals: first, last, distance between neighbours, and the small letter of the
    first; the small letters keep the same distance. -/
def lowerRuns : List (Nat × Nat × Nat × Nat) :=
  shiftedRuns.map (fun (first, count, small) => (first, first + count - 1, 1, small))
    ++ alternatingRuns.map (fun (first, last) => (first, last, 2, first + 1))

/-- Bounds of the characters that a word break does not see: marks, modifiers, format
    characters and a few signs within words. -/
def ignorableBounds : Array Nat :=
  boundsOf [
    39,1,6,1,11,1,35,1,1,1,71,1,4,1,1,1,4,1,2,2,503,192,4,2,4,1,9,2,1,1,251,7,207,1,5,1,49,45,1,1,1,
    2,1,2,1,1,44,1,11,6,10,11,1,1,35,1,10,21,16,1,101,8,1,10,1,4,33,1,1,1,30,27,91,11,58,11,4,1,2,1,
    24,24,43,3,44,1,7,2,6,8,41,58,55,1,1,1,4,8,4,1,3,7,10,2,13,1,15,1,58,1,4,4,8,1,20,2,26,1,2,2,57,
    1,4,2,4,2,2,3,3,1,30,2,3,1,11,2,57,1,4,5,1,2,4,1,20,2,22,6,1,1,58,1,2,1,1,4,8,1,7,2,11,2,30,1,
    61,1,12,1,50,1,3,1,55,1,1,3,5,3,1,4,7,2,11,2,29,1,58,1,2,1,6,1,5,2,20,2,28,2,57,2,4,4,8,1,20,2,
    29,1,72,1,7,3,1,1,90,1,2,7,11,9,98,1,2,9,9,1,1,6,74,2,27,1,1,1,1,1,55,14,1,5,1,2,5,11,1,36,9,1,
    102,4,1,6,1,2,2,2,25,2,4,3,16,4,13,1,2,2,6,1,15,1,94,1,608,3,946,3,29,2,30,2,30,2,64,2,1,7,8,1,
    2,11,3,1,5,1,45,5,51,1,65,2,34,1,118,3,4,2,9,1,6,3,219,2,2,1,58,1,1,7,1,1,1,1,2,8,6,10,2,1,39,1,
    8,31,49,4,48,1,1,5,1,1,5,1,40,9,12,2,32,4,2,2,1,3,56,1,1,2,3,1,1,3,58,8,2,2,64,6,82,3,1,13,1,7,
    4,1,6,1,3,2,50,63,13,1,34,101,445,1,1,3,11,3,13,3,13,3,13,2,12,5,8,2,10,1,2,1,2,5,49,5,1,10,1,1,
    13,1,16,13,51,33,2955,2,113,3,125,1,15,1,96,32,47,1,469,1,36,4,3,5,5,1,93,6,93,3,28438,1,1250,6,
    270,1,98,4,1,10,1,1,28,4,80,2,14,34,78,1,23,3,103,3,3,2,8,1,3,1,4,1,25,2,5,1,151,2,26,18,13,1,
    38,8,25,11,46,3,48,1,2,4,2,2,17,1,21,2,66,6,2,2,2,2,12,1,8,1,35,1,11,1,51,1,1,3,2,2,5,2,1,1,27,
    1,14,2,5,2,1,1,100,5,9,3,121,1,2,1,4,1,20272,1,147,17,573,16,3,1,12,16,34,1,2,1,169,1,7,1,6,1,
    11,1,35,1,1,1,47,1,45,2,67,1,21,3,513,1,226,1,149,5,1029,6,1,42,1,9,582,3,1,2,5,4,40,3,4,1,165,
    2,573,4,387,2,153,11,49,4,123,1,54,15,41,1,2,2,10,3,49,4,2,2,2,1,4,1,10,1,50,3,36,5,1,8,62,1,12,
    2,52,9,10,4,2,1,95,3,2,1,1,2,6,1,160,1,3,8,21,2,57,2,3,1,37,7,3,5,195,8,2,3,1,1,23,1,84,6,1,1,4,
    2,1,2,238,4,6,2,1,2,27,2,85,8,2,1,1,2,106,1,1,1,2,6,1,1,101,3,2,4,1,5,259,9,1,2,256,2,1,1,4,1,
    144,4,2,2,4,1,32,10,40,6,2,4,8,1,9,6,2,3,46,13,1,2,406,7,1,6,1,1,82,22,2,7,1,2,1,2,122,6,3,1,1,
    2,1,7,1,1,72,2,3,1,1,1,347,2,5435,9,14007,5,59,7,9,4,1035,1,63,17,64,2,1,2,16395,4,1,7,1,2,3230,
    2,1,4,4700,46,2,23,544,3,9,16,2,7,30,4,148,3,1979,55,4,50,8,1,14,1,22,5,1,15,1360,7,1,17,2,7,1,
    2,1,5,261,14,368,1,61,4,1504,7,109,8,2735,5,789505,1,30,96,128,240
  ]

/-- Bounds of the letters that have a case and that a word break sees. -/
def casedBounds : Array Nat :=
  boundsOf [
    65,26,6,26,47,1,10,1,4,1,5,23,1,31,1,195,1,4,4,208,1,27,192,4,2,2,3,3,1,1,6,1,1,3,1,1,1,20,1,83,
    1,139,8,166,1,38,9,41,2839,38,1,1,5,1,2,43,2,3,672,86,2,6,2178,9,7,43,2,3,64,44,63,13,1,34,101,
    278,2,6,2,38,2,6,2,8,1,1,1,1,1,1,1,31,2,53,1,7,1,1,3,3,1,7,3,4,2,6,4,13,5,3,1,7,261,1,4,1,2,10,
    1,1,3,5,6,1,1,1,1,1,1,4,1,6,4,1,2,4,5,5,4,1,17,32,3,2,817,52,1814,124,2,103,6,4,3,2,12,38,1,1,5,
    1,30994,46,18,28,134,78,1,23,3,4,1,59,5,2,1,1,1,5,27,2,3,1,821,43,5,9,7,80,20288,7,12,5,1033,26,
    6,26,1189,80,96,36,4,36,116,11,1,15,1,7,1,2,1,11,1,15,1,7,1,2,1731,51,13,51,2989,64,21856,64,
    25984,85,1,71,1,2,2,1,2,2,2,4,1,12,1,1,1,7,1,65,1,4,2,8,1,7,1,28,1,4,1,5,1,1,3,7,1,340,2,25,1,
    25,1,31,1,25,1,31,1,25,1,31,1,25,1,31,1,25,1,8,1844,10,1,20,2529,68,2028,26,6,26,6,26
  ]

/-- Whether a code is among those from `first` to `last` that are `gap` apart. -/
def inRun (first last gap n : Nat) : Bool := first ≤ n && n ≤ last && (n - first) % gap == 0

/-- The small letter of a capital beyond the first 128 characters. -/
def lowerCode (n : Nat) : Nat :=
  match lowerRuns.find? fun (first, last, gap, _) => inRun first last gap n with
  | some (first, _, _, small) => small + (n - first)
  | none => n

/-- The small letter of a capital; any other character is unchanged. -/
def lowerChar (c : Char) : Char :=
  if c.toNat < 128 then c.toLower else Char.ofNat (lowerCode c.toNat)

/-- The characters that a word break does not see. -/
def isIgnorable (c : Char) : Bool := inBounds ignorableBounds c

/-- The letters that have a case and that a word break sees. -/
def isCased (c : Char) : Bool := inBounds casedBounds c

/-- Whether the first character that a word break sees is a letter with case. -/
def meetsCased (cs : List Char) : Bool :=
  match cs.dropWhile isIgnorable with
  | c :: _ => isCased c
  | [] => false

/-- Lower case of the characters after `before`, which is in reverse order. -/
def lowerFrom (before : List Char) : List Char → List Char
  | [] => []
  | c :: rest =>
      let small :=
        if c = '\u0130' then ['i', '\u0307']
        else if c = 'Σ' then [if meetsCased before && !meetsCased rest then 'ς' else 'σ']
        else [lowerChar c]
      small ++ lowerFrom (c :: before) rest

/-- The lower-case form of a text. -/
def lower (cs : List Char) : List Char := lowerFrom [] cs

end Ordo.Text
