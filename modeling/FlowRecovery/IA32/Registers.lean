/-!
# Registers and flags of IA-32

The first texts of the specification: constants, registers and the functions that set the status
flags.
-/

namespace FlowRecovery.IA32

def registers : String := "
MAX8BITS:=0xFF;
MAX16BITS:=0xFFFF;
MAX32BITS:=0xFFFFFFFF;
MAX8POS:=0x7F;
MAX8NEG:=0x80;
MAX16POS:=0x7FFF;
MAX16NEG:=0x8000;
MAX32POS:=0x7FFFFFFF;
MAX32NEG:=0x80000000;
ADDRESSBITS:=32;
INTEGER
[ %eax,%ecx,%edx,%ebx,
%esp,%ebp,%esi,%edi ][32] -> 24..31,
%ax[16] -> 0 SHARES %eax@[0..15],
%cx[16] -> 1 SHARES %ecx@[0..15],
%dx[16] -> 2 SHARES %edx@[0..15],
%bx[16] -> 3 SHARES %ebx@[0..15],
%sp[16] -> 4 SHARES %esp@[0..15],
%bp[16] -> 5 SHARES %ebp@[0..15],
%si[16] -> 6 SHARES %esi@[0..15],
%di[16] -> 7 SHARES %edi@[0..15],
%al[8] -> 8 SHARES %ax@[0..7],
%cl[8] -> 9 SHARES %cx@[0..7],
%dl[8] -> 10 SHARES %dx@[0..7],
%bl[8] -> 11 SHARES %bx@[0..7],
%ah[8] -> 12 SHARES %ax@[8..15],
%ch[8] -> 13 SHARES %cx@[8..15],
%dh[8] -> 14 SHARES %dx@[8..15],
%bh[8] -> 15 SHARES %bx@[8..15],
%es[16] -> 16,
%cs[16] -> 17,
%ss[16] -> 18,
%ds[16] -> 19,
%fs[16] -> 20,
%gs[16] -> 21,
[ %cr0,%cr2,%cr3,%cr4 ][32] -> 22..25,
%pc[32] -> -1,
[ %SF,%ZF,%AF,%PF,
%CF,%OF,%DF,%IF,
%FLF,
%C1,%C2,%FZF ][1] -> -1;
FLOAT
[ %st0,%st1,
%st2,%st3,%st4,%st5,%st6,%st7 ][80] -> 34..41;
INTEGER
%fsw[16] -> 42,
%fstp[8] -> 43,
%fcw[16] -> 44,
[%xmm0,%xmm1,%xmm2,%xmm3,%xmm4,%xmm5,%xmm6,%xmm7][128] -> 45..53,
%mxcsr[32] -> 54;
"

def additionFlags : String := "
ADDFLAGS8(op1,op2,result) \x7b
addflags_generic(op1,op2,result)
\x7d;
ADDFLAGS16(op1,op2,result) \x7b
addflags_generic(op1,op2,result)
\x7d;
ADDFLAGS32(op1,op2,result) \x7b
addflags_generic(op1,op2,result)
\x7d;
addflags_generic(op1,op2,result) \x7b
*1*%CF:=((op1<0)&(op2<0))
| ((result>=0)&((op1<0)|(op2<0)))
*1*%OF:=((op1<0)&(op2<0)&(result>=0))
| ((op1>=0)&(op2>=0)&(result<0))
*1*%SF:=(result<0)
*1*%ZF:=(result=0)
\x7d;
"

def subtractionFlags : String := "
SUBFLAGS8(op1,op2,result) \x7b
subflags_generic(op1,op2,result)
\x7d;
SUBFLAGS16(op1,op2,result) \x7b
subflags_generic(op1,op2,result)
\x7d;
SUBFLAGS32(op1,op2,result) \x7b
subflags_generic(op1,op2,result)
\x7d;
subflags_generic(op1,op2,result) \x7b
*1*%CF:=(op1 <u op2)
*1*%OF:=((op1<0)&(op2>=0)&(result>0))
| ((op1>=0)&(op2<0)&(result<0))
*1*%SF:=(result<0)
*1*%ZF:=(op1=op2)
\x7d;
"

/-! ### Forms -/

/-- A text with `$0`, `$1` and so on filled in. -/
def fill (parts : List String) : List Char → List Char
  | '$' :: n :: cs => (parts.getD (n.toNat - '0'.toNat) "").toList ++ fill parts cs
  | c :: cs => c :: fill parts cs
  | [] => []

/-- The text of an instruction in each of its forms. -/
def forms (rows : List (List String)) (text : String) : String :=
  String.ofList (rows.flatMap fun parts => fill parts text.toList)

def bytes : List String := ["B", "8", "tmpb", "%al", "AL", "7", "B", "B"]

def words : List String := ["W", "16", "tmph", "%ax", "AX", "15", "W", "OW"]

def doubles : List String := ["L", "32", "tmp1", "%eax", "EAX", "31", "D", "OD"]

def sizes : List (List String) := [bytes, words, doubles]

def logicFlags : String := forms sizes "
LOGICALFLAGS$1(result) \x7b
logicalflags_generic(result)
\x7d;
" ++ "
logicalflags_generic(result) \x7b
*1*%CF:=0
*1*%OF:=0
*1*%ZF:=(result=0)
*1*%SF:=(result<0)
\x7d;
"

def productFlags : String := "
undefineflags( ) \x7b
*1*%CF:=nondet(1)
*1*%OF:=nondet(1)
*1*%SF:=nondet(1)
*1*%ZF:=nondet(1)
\x7d;
" ++ forms [["8", "7", "15"], ["16", "15", "31"], ["32", "31", "63"]] "
IMULTFLAGS$0(result) \x7b
*1*%CF:=[(sgnex(1,$1,result@[$1:$1])=result@[$0:$2])?0:1]
*1*%OF:=%CF
\x7d;
MULTFLAGS$0(result) \x7b
*1*%CF:=[result@[$0:$2]=0?0:1]
*1*%OF:=%CF
\x7d;
"

def rotationFlags : String := forms [["8", "7", "6"], ["16", "15", "14"], ["32", "31", "30"]] "
ROLFLAGS$0(result,op1,count) \x7b
*1*%OF:=[count=1?(op1@[$1:$1])~=%CF:nondet(1)]
*1*%CF:=result@[$1:$1]
\x7d;
RORFLAGS$0(result,op1,count) \x7b
*1*%CF:=result@[$1:$1]
*1*%OF:=[count=1?(op1@[$1:$1])~=(op1@[$2:$2]):nondet(1)]
\x7d;
"

def shiftFlags : String := "
SARFLAGS(result,op1,count) \x7b
*1*%CF:=op1@[(count - 1):(count - 1)]
*1*%OF:=[count=1?0:nondet(1)]
\x7d;
" ++ forms sizes "
SALFLAGS$1(result,op1,count) \x7b
*1*%CF:=op1@[($1-count):($1-count)]
*1*%OF:=[count=1?(result@[$5:$5])~=%CF:nondet(1)]
\x7d;
SHRFLAGS$1(result,op1,count) \x7b
*1*%CF:=op1@[(count - 1):(count - 1)]
*1*%OF:=[count=1?(result@[$5:$5])~=%CF:nondet(1)]
\x7d;
"

def doubleShiftFlags : String := forms [["32", "31"], ["64", "63"]] "
SHLDFLAGS$0(result,combine,count) \x7b
*1*%CF:=combine@[($0-count):($0-count)]
*1*%OF:=[count=1?(result@[$1:$1])~=%CF:nondet(1)]
\x7d;
SHRDFLAGS$0(result,combine,count) \x7b
*1*%CF:=combine@[(count - 1):(count - 1)]
*1*%OF:=[count=1?(result@[$1:$1])~=%CF:nondet(1)]
\x7d;
"

def floatFlags : String := "
SUBFLAGSFL(op1,op2) \x7b
*1*%CF:=op1<op2
*1*%ZF:=op1=op2
\x7d;
SETFFLAGS(op1,op2) \x7b
*1*%FZF:=[(op1=op2)?1 : 0]
*1*%FLF:=[(op1<op2)?1 : 0]
*1*%C2:=0
\x7d;
"

end FlowRecovery.IA32
