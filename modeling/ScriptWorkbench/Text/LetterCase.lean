/-
Upper and lower case, after version 14 of the Unicode character database.

A case map is a list of runs of code points that move by a constant distance. Three rules go beyond that: the
dotted capital I becomes two characters in lower case, a hundred letters become two or three characters in
upper case, and a capital sigma that ends a word has a lower case of its own.
-/
import ScriptWorkbench.Text.Ranges

namespace ScriptWorkbench.Text

/-- Code points of a range in equal steps, and how far off their counterparts are. -/
structure CaseRun where
  first : Nat
  last : Nat
  step : Nat
  shift : Int

/-- Runs from `start` on: for each one, the distance to its first code point, the number of those behind it,
the step, and twice the shift, with one more if it goes down. -/
def runsFrom (start : Nat) : List Nat → List CaseRun
  | gap :: more :: step :: shift :: rest =>
    let last := start + gap + more * step
    ⟨start + gap, last, step, if shift % 2 = 0 then shift / 2 else -(shift / 2 : Nat)⟩ :: runsFrom last rest
  | _ => []

def shiftCase (runs : List CaseRun) (n : Nat) : Nat :=
  match runs.find? fun r => r.first ≤ n && n ≤ r.last && (n - r.first) % r.step == 0 with
  | some r => (n + r.shift).toNat
  | none => n

def lowerRuns : List CaseRun :=
  runsFrom 0 (numbers
    "S.8#P5$(#P5D9$$&$$$%)$$%8$$$!#T4#$$$&!#X1##$$$!#X)#!#$$##X'#!#$%!#R9#!#WN#!#X##!#$$!#X'#!#X+$!#X3#!#X/#!
#$&!#X3#!#X7$!#X9#$$$$!#XA#!#$$!#XA%!#$$!#XA#!#$$##X?##$$$!#XC#!#$&!#$*!#&#!#$$!#&#!#$$!#&#*$$%*$$%!#&##
$$$!#S1#!#Q9#5$$$!#TF$*$$*!#YmE#!#$$!#V.#!#Ym?%!#$$!#WA#!#R%#!#R)#&$$U6#$$&!#$+!#T))!#PA$$#P?$!#QH$##QF$
2#P5$*#P5F!#2+-$$(!#QA%!#$$!#1#!#$%$#TF#1#R;#A#P5P&2$$,<$$$!#@#($$%P$$$%G#Q(Pc,G#VVH$!#VVH(!#VVH`%PD#va/
#'#2PRML#Q|B%$#Q|BV(P?$$,!#Vg7$P$$$,)#3+'#3-)#3+)#3+'#3.%$3+)#3;)#3+)#3+)#3+##3###R0#!#5.%#RH#!#5.##3###
S7/##3###T!#!#1.##TB###T>#!#5U>!#Vc'&!#W[=#!#WV,)!#P-P#1#B6!#$b+;#P)xKP$#Q(P&!#$$!#Yk8#!#Rr:#!#YjE%$$$$!
#Ym(#!#YkD#!#Ym.#!#Ym,$!#$%!#$+##YnA#P&$$+#$$'!#$__&8$$6/$$R#($$&@$$-#$$$!#rx1#&$$'!#$$!#yr(%#$$&+$$$!#y
s3#!#ysI#!#ysA#!#ys-#!#ys3$!#yq)#!#yr,#!#yq/#!#y-#)$$$!#Q)#!#ys1#!#rz?##$$)!#$(#$$?!#$ZOK;#P5k)I#PER$E#P
ER8,#PC$0#PC$(#PC$##PCw2P'#QHPfIA#P5Yt5A#P5_f>C#P9")

def CaseRun.back (r : CaseRun) : CaseRun :=
  ⟨(r.first + r.shift).toNat, (r.last + r.shift).toNat, r.step, -r.shift⟩

/-- Upper case from code point 128 on: the way back from lower case, and the letters that are not the
lower case of their capital. -/
def upperRuns : List CaseRun :=
  lowerRuns.map CaseRun.back ++ runsFrom 0 (numbers
    "S#!#q#QD!#Y1PC!#]2P;!#%%!#%%!#%I!#%V:!#RCQE!#P40!#QE#!#Q;&!#Q'#!#Q5<!#RH#!#R<&!#S/RS>!#UVN#!#UVL#!#UV:##
#UV6#!#UV8#!#UV*#!#USC#!#ru3ZF!#Q?U7!#VT-")

/-- Letters whose upper case is more than one character. Those with an iota below come in two rows of
eight with the same upper case. -/
def longUpper : List (Nat × List Nat) :=
  ([(8064, 7944), (8080, 7976), (8096, 8040)].flatMap fun (row : Nat × Nat) =>
    (List.range 16).map fun i => (row.1 + i, [row.2 + i % 8, 921])) ++ [
    (223, [83, 83]), (329, [700, 78]), (496, [74, 780]), (912, [921, 776, 769]),
    (944, [933, 776, 769]), (1415, [1333, 1362]), (7830, [72, 817]), (7831, [84, 776]),
    (7832, [87, 778]), (7833, [89, 778]), (7834, [65, 702]), (8016, [933, 787]),
    (8018, [933, 787, 768]), (8020, [933, 787, 769]), (8022, [933, 787, 834]), (8114, [8122, 921]),
    (8115, [913, 921]), (8116, [902, 921]), (8118, [913, 834]), (8119, [913, 834, 921]),
    (8124, [913, 921]), (8130, [8138, 921]), (8131, [919, 921]), (8132, [905, 921]),
    (8134, [919, 834]), (8135, [919, 834, 921]), (8140, [919, 921]), (8146, [921, 776, 768]),
    (8147, [921, 776, 769]), (8150, [921, 834]), (8151, [921, 776, 834]), (8162, [933, 776, 768]),
    (8163, [933, 776, 769]), (8164, [929, 787]), (8166, [933, 834]), (8167, [933, 776, 834]),
    (8178, [8186, 921]), (8179, [937, 921]), (8180, [911, 921]), (8182, [937, 834]),
    (8183, [937, 834, 921]), (8188, [937, 921]), (64256, [70, 70]), (64257, [70, 73]),
    (64258, [70, 76]), (64259, [70, 70, 73]), (64260, [70, 70, 76]), (64261, [83, 84]),
    (64262, [83, 84]), (64275, [1348, 1350]), (64276, [1348, 1333]), (64277, [1348, 1339]),
    (64278, [1358, 1350]), (64279, [1348, 1341])]

def casedRanges : List (Nat × Nat) :=
  rangesFrom 128 (numbers
    "L!,!&!'8#@#S0#%&S=#<S.%$#%$#!(!#$#!#5#PG#R%*R@#G+JPb&G#!'!$L$$^LPJ$'PR4*)L$$P5MP4.#CQ-U)$'$G$'$)#!#!#!#@
$P)#(#!%$#(%%$'&.'$#(TF!&!$+#!%&(!#!#!#%#'&!$%'&&!3A%#b)P(x0QC$Q.(%%#.G#!'!_]DP!4=QNPB#8%%#P/'##!#&=#%!b
-L'*)PDYOH(.&fM;(;j5PDQ(E&EQ<,#0#(###,#0#(##v7P'/P'Pe5P4YsAP4[u5PI#P;##$!$#$%#-#!#(#P5#%$)#(#=#%#&#!%(#V
:$:#:#@#:#@#:#@#:#@#:#)xN+#5PZ+P8PO%;(;(;")

def overlookedRanges : List (Nat × Nat) :=
  rangesFrom 128 (numbers
    "J!&!#!&!$#Z*S-&#&!+##!T<(S=!'!P&N#!#####!N!-',,#!E!,62!Q-)#+#%C!#!@<Q#,P/,&!$!:9M$N!)#()KP.P,!#!&)&!%(,#
/!1!P/!&%*!6#<!$#P.!&#&#$$%!@#%!-#P.!&&##&!6#8'#!P/!$!#%*!)#-#@!P2!.!P'!%!P,!#$'$#%)#-#?!P/!$!(!'#6#>#P.
#&%*!6#?!P=!)$#!Q!!$(-*Q*!$*+!#'P?#=!#!#!P,/#&##',#E+!Q.%#'##$#;#&$2%/!$#(!1!Q&!]9$e#$?#@#@#P5##(*!$,%!'
!P!&P(!P6#D!Q>$&#+!($SI#$!P/!#(#!#!$)(+$!I!*@P&%P%!#&#!'!J*.#B%$##$P-!##%!#$P/)$#P5'PG$#.#(&!(!%#P'P3/!D
Q,XJ!#$-$/$/$/#.&*#,!$!$&P&&#+#!/!2.P(BPd@#Q9$QE!1!Q(AP$!Y5!F%%&'!Q%'Q%$^PM!kE'U!!Q*%#+#!>%PE#0CPC!9$Q/$
%#*!%!&!;#'!R2#<3/!H);,P#$P%!$%$#3!7#P7'$#$#.!*!E!-!P(!#$$#'##!=!0#'##!Q,&+$QA!$!&!YO8!R.2[C1%!.1D!$!RD!
)!(!-!E!#!P$!P!#P8!7$Z4!T#!R0&fI'#K#*[L$##'%J$&!R@#[C%W=#R4,P&%QC!P+0K!$#,$P&%$#$!&!,!P'$F&#)P3!.#P)*,%$
!Q'$$!##(!R;!%)7#P.#%!G(%&S1)$$#!9!PI'#!&###T/%(###=#PJ)$!##Q2!#!$'#!Q-$$%#&TD*##TA##!&!R+%$#&!B+J'$%*!+
'$$P#.##X#(#'#!PG7$(####QB'%!###(#!P=#%!#!VB#QnE*Uy.&P0(+%g!!P42P5###WS1%#(##PjE##%Q^6P!$8[&$+1$(@%R/$|N
P+&P&*!0!8&#0n,(#2$(###&TF/W*!P2%q5(Q5)P_E&Wmw;!@Q'QHT0")

def isCased (c : Char) : Bool :=
  hasProperty Char.isAlpha casedRanges c

def isOverlooked (c : Char) : Bool :=
  hasProperty (fun c => [39, 46, 58, 94, 96].contains c.toNat)
    overlookedRanges c

def startsCased (cs : List Char) : Bool :=
  ((cs.dropWhile isOverlooked).head?.map isCased).getD false

/-- The lower case of `c`, where `before` holds the characters before it, the nearest first, and
`after` those that follow. -/
def lowerIn (before : List Char) (c : Char) (after : List Char) : List Char :=
  if c.toNat < 128 then [c.toLower]
  else if c.toNat = 304 then ['i', Char.ofNat 775]
  else if c.toNat = 931 then
    [if startsCased before && !startsCased after then Char.ofNat 962 else Char.ofNat 963]
  else [Char.ofNat (shiftCase lowerRuns c.toNat)]

def lowerFrom (before : List Char) : List Char → List Char
  | [] => []
  | c :: rest => lowerIn before c rest ++ lowerFrom (c :: before) rest

def lower (s : String) : String :=
  String.ofList (lowerFrom [] s.toList)

def upperChar (c : Char) : List Char :=
  if c.toNat < 128 then [c.toUpper]
  else
    match longUpper.find? fun e => e.1 == c.toNat with
    | some e => e.2.map Char.ofNat
    | none => [Char.ofNat (shiftCase upperRuns c.toNat)]

def upper (s : String) : String :=
  String.ofList (s.toList.flatMap upperChar)

end ScriptWorkbench.Text
