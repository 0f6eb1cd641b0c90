/-
Letters: the characters whose general category is one of Lu, Ll, Lt, Lm and Lo in version 14 of the
Unicode character database.
-/
import ScriptWorkbench.Text.Ranges

namespace ScriptWorkbench.Text

def letterRanges : List (Nat × Nat) :=
  rangesFrom 128 (packedNumbers [
    0x84D84311A1E222118008584116520A9014A205304004204018004308104406400100710E2C426E05E0561401002802A1,
    0x3CF2470120035616A126144505714A1D85C00C024011514010124085800B62275D0404000822811C13C00428C104384A,
    0x1704F0120031010411815410812100930010DF04104104118154204414800A04E08104D0100030C30011815420421C4,
    0x471007810800826800CF0560420475210162C30830430410010430C108314101100F08105E0031010411815420421CB,
    0x490400570440400416A118C0413E16A11820012015C34451580880850100022210420484413C10417C00C4049056042,
    0x22108304004608304CA812A108014004585100C3040870430030C41500142A14E311B0E10477E1000843540044080241,
    0x8838801000E14E13C204C3913923511C718A8856414022F30C50958903C58428820C162104E0830400460830408420C1,
    0x2610822A11C808384A08984385A2E128135D5A11D13A176201289484959685910B84B10275185E2858850010610841D8,
    0x40058CC4003405231810853041420C318108300118152109E0400400400470850858421425680227E51400C1045043,
    0x1811811811811811811811895900075E108014004584C0430C61276F38815210041050C22810C1001001006103001242,
    0x2118458827903A150128F0CCA023610E2334D4089FB660303D085F45D8812A11430598810865621011442A1055B80422,
    0x4610C00D65070425C884110A24111001C3A11DC65629B2C10400C57A146139385D5810C10813D81010010457E10868C2,
    0x10130124100510C1868498C236B128A1084458C0FDA9D4A318D04A84118118914214214C087282098001002102043001,
    0x705B1A8C284D08E04105205904B0E10821421421436222D91991211A40445232C88558427E148AAC184B8C1041041001,
    0x8411581CA5495A90E204118138128104118138128C4E12078440E11038527644211C40E109D2858461C14CD7CF850843,
    0x44D48A54A5616DB0470E170370A85C0420433C00220465E11A264A54A04148189E2562960800C104B841002145888049,
    0x3E13000C284800201D0E16980213213400816615213166D43A144A85520029C3A204626172A0E135284D4A15E12223A3,
    0x84E85894004150F85E0940D25217A410C0120031010411815420421C684E8472413810C10011948980510E10010150CE,
    0x3612C05401C784A01C0010101A10877A200100F5C10411C20021DF7E15232E166518585A1E200D2A16E10143E11210C9,
    0xB681B247E8CE8613C08CCCA20E61A767C3E201D9521EA00E7C1041159015161041046423751840444841207A08892013,
    0xD108D842A410411810C7DE820A8559A1217FE570004102230288014A88091F850D521547C340F8527513A245E1D8C59,
    0x7816016024EA0460C004404305B0460470830408811810012C10C20420020411A2054886EE52472033052A312888BB08,
    0x8004105A0435258401C389B8449813810410C11949E12E149D06A01018A32106F794E611C1601781601781601781601,
    0x7F6A6112A910044042150049040043043046043080041040040040040040080041042040040040100180040043049040,
    0xFFFFFFFFFFFFFFFFFFFFFFFFFFFFFFFFFFFFFFFFFFFFFFFFFFFFFFFCAEA40AF85DC1F8234299CE0749427661D8864021])

def isLetter (c : Char) : Bool :=
  hasProperty Char.isAlpha letterRanges c

end ScriptWorkbench.Text
