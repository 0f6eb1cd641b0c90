/-
Characters that a quoted text shows as they are.

Hidden are the control, format, surrogate, private-use and unassigned code points and all separators except
the ASCII space, after version 14 of the Unicode character database.
-/
import ScriptWorkbench.Text.Ranges

namespace ScriptWorkbench.Text

def hiddenRanges : List (Nat × Nat) :=
  rangesFrom 128 (packedNumbers [
    0x21F10B00105C00F0518416E13458C16E10508400260164060DB1D78400C14A104684036C0140010070C604AD80300840,
    0x2511810041810830420C50010420020020070160420C60030590450020C11C40420490440810070160420480019402A2,
    0x840030860022520450020C318304204904500200701604204800300718C04438104300300A045002007016003009003,
    0x18400300904500A01700301618A04404104300218400300905001700300D1153411410440030850CC083082082001002,
    0x4060014004008485D0DA84B0C12852000401830421C10402406024800C06814031800C04E100300D30200A044002142,
    0x44001007044001841100261044001007044019AC10440401A61213403C012100784312100889F1012811800401415C0,
    0xCC01F2468842E11998852C03852852817A22C200300D2D421821619988270003404605688568202104388110066100F,
    0x8411815B010B8472C12E119C8423C27211D48C03E108D89085F04E14A14B05D0018817A108B15A0CC84A1412A10810CC,
    0x11DA80021054E2150B617D0332438184E06108D01B04240F8476102400C14C01813803C056105F001001001008046046,
    0x3E12D48807A200B8441E30568807E110C65698B66201A0617A3007007007007007007007007218342198841044040361,
    0x1811897171E304A04E2178400610CB00E88278A52314C1C688762114A09B8571400400842E61D895372A217842373F00,
    0x138452A17C119684176D3DD8C008008004014068414B1C584A8C13AB0E8A118435CB13DA852817A30DC8401C01C8181,
    0x39184274190E84E84108D0188823610C311B8C184E04F00201301A00C04230700708304604604609E9431E40050C4013,
    0xA8401972095885E90A20801C03C02C00801C03C030A5211C88431210C48452817A426138316101E10B8447881210DC,
    0x20C0C785F02218918A0C305D0030081020128415036217E10446C20611020133E124722201704108200C840041184889,
    0x30501E8481210CE8885D370585A54A8472213620810C02A101F1692873A119384C4E15A12623E21CB1066846C17425A1,
    0x4710114104304204A00500200701604204800414A11B8452C03C01000401C088C84048A50002320784748056114A199,
    0x20C04201E0020080410482D38838DC8589570CF05B5612856A148D14A2858818468415A116528722274501C88A905087,
    0x28618008016100200614A1C900200108C8400801C888E0160408427493803610091A826231388722268B04E84120588A,
    0x4C45401C02891A224605E14A0118832807C667162DA07C90FA33E184C0E32F288498A1403E31636FC31284E056959569,
    0x7F290404A18908D10B8C3A2232C1C44033210E90020070041B7A092615A684763F94D08A15F8511998432E21236E23F5,
    0x1C0070080440018801C00403001010810410801E201588691921788B5199068944231CA8811E12569DB8548C85C13A1,
    0xF0020040077E684111A8507DFA420CA04E08D8549850020070510070277CF8A13C014E7B5044A4152A007081005004,
    0x10010010010010410020030010010010C114100100400A00104100201B0040667612E2122438083283322221401166,
    0x90118F999063421890CC84C75784E94916100F00F04F2C48C332136809385100500311100A001004004007004041002,
    0xDE98458212848578404E42071C814A24610B09D20708508504E2D4A8D88205E1C88452876210CC3810CC19988B52308D,
    0xFFFFFFFFFFFFFFFFFFFFFFFFFFFFFFFFFFFFFFFFCFC3F9509D4B7BD4BEA406F85EC1E8234699CD0B49417A61998647C0])

def isVisible (c : Char) : Bool :=
  if c.toNat < 128 then 32 ≤ c.toNat && c.toNat < 127 else !inRanges hiddenRanges c.toNat

end ScriptWorkbench.Text
