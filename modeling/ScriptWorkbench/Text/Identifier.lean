/-
Names that a program may give to things, after version 14 of the Unicode character database. Superscript and
circled numerals are no part of a name, though they count as numerals.
-/
import ScriptWorkbench.Text.Letter

namespace ScriptWorkbench.Text

def innerLetterRanges : List (Nat × Nat) :=
  rangesFrom 128 (numbers
    "`L!P_N!QG!R~&!jQL'X##Q<!#!#!#!#!#!#!#!U3#")

/-- Characters from code point 128 on that a name can start with though they are no letters: most of them
are numerals. -/
def furtherStartRanges : List (Nat × Nat) :=
  rangesFrom 128 (numbers
    "Qu=$WN#PRC!7!P&D$%Pu6!;*0$_O&+ZbEP)Y,!*!QN&SQNQ6")

def namePartRanges : List (Nat × Nat) :=
  rangesFrom 128 (numbers
    "P,![NQ79!T<&TJN#!#####!P=,P%@(!Q-($'$##%$+9!@<Q#,1+C*+!:%#*#$#&M$P1)L9#BP+$#3#(,#$+3$P-!#($#$$+!,#$+0!$$
P-!#&&#$$%!6-%!-$P-!#)#$#$6#$+,'#$P-!#($#$$)$,#$+4!P0&%$#%+!0+2&P,!#(#$#%)#-#$+3$P-!#(#$#%)#-#$+2%P,##(#
$#%+!,#$+3$P;!&'#!#)(+$#P2!#).)#+PL!#+-'$+P3#(+-!#!#!&#P&5##',#E+!Q,5#+.%&$#$$(%%/-#0_>$+*d>%>$?#@#P5A+!
$+C$#,R*!Q>-&-,+QH,P1&P.+#>$,(+8/#1P&&P$2-+3*.$@.$+N/P%5*+(+Q>$#6&!(!$$S4P4[E#5!QC.&!%-Pg,$R(!Q(A[0'Q1#^
v;+P:!&+B#PE#U$!%!&!9&&!PH#P'3,+(3/,>);.N%P$/1+-!,+P$/.!*#$+C$P'!#$$#'##!K&'#T-)##$+YO,!`3121%#:$S.+G!Q&
#]6!T#!R0&U9+n3$##'%J$&!R@#[C%*+W+#R4,P&%QB$P*0A,$#,%P!,)!P!+($F/#+'#N!.$P%/*%#-PG-(!R;-'+(%P,##($#$$+!,
#$(%&S.3++&!PF5.+SC($*=#PG21+PF.*+PH0&+T30R@+P;'##$%#!##.+Q?($(%!>+J(#%*!+,P#1X!)#)2+P-7#/QB'%!###(#!*+P
%&###&*+V0%Xh!+PK+H&P0(;+f9!#P+)%PF!-#Xo)#Q^;P!$8[$&%'*)$(@%R/$o8P&Z3P+&P&*!0!8&#0n,(#2$(###&TF(++VK!P2/
q+(Q5('+Q_C+Wl~HT0")

def startsName (c : Char) : Bool :=
  hasProperty (fun c => c.isAlpha || c == '_') furtherStartRanges c ||
    (isLetter c && !inRanges innerLetterRanges c.toNat)

theorem startsName_ascii {c : Char} (h : c.toNat < 128) :
    startsName c = (c.isAlpha || c == '_') := by
  rw [startsName, hasProperty_ascii h, isLetter, hasProperty_ascii h]
  cases c.isAlpha <;> simp

def continuesName (c : Char) : Bool :=
  startsName c || hasProperty Char.isDigit namePartRanges c

def isIdentifier : List Char → Bool
  | [] => false
  | c :: cs => startsName c && cs.all continuesName

end ScriptWorkbench.Text
