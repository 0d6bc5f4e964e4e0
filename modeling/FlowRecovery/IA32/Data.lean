import FlowRecovery.IA32.Registers

/-!
# Data transfer of IA-32

Moves, conversions, the stack and exchanges.
-/

namespace FlowRecovery.IA32

def conversions : String := "
CBTW
*16*%ax:=sgnex(8,15,%al);
CWTL
*32*%eax:=sgnex(16,31,%ax);
CWTD
*16*%dx:=[%ax@[31:31]=1?-1:0];
CLTD
*32*%edx:=[%eax@[31:31]=1?-1:0];
CLC
*1*%CF:=0;
CLD
*1*%DF:=0;
CLI
*1*%IF:=0;
CMC
*1*%CF:=~(%CF);
CPUID
*32*%eax:=nondet(32)
*32*%ebx:=nondet(32)
*32*%ecx:=nondet(32)
*32*%edx:=nondet(32);
" ++ forms [
  ["B.EV.GB", "8", "tmpb", "%al", "modrm{8}"], ["W.EV.GVOW", "16", "tmph", "%ax", "modrm{16}"],
  ["L.EV.GVOD", "32", "tmp1", "%eax", "modrm"]] "
CMPXCHG$0 modrm,reg$1
*$1*$2:=$4
*1*%ZF:=[$3=$2?1:0]
*$1*modrm:=[$3=$2?reg$1:$2]
*$1*$3:=$2;
"

def ports : String := forms sizes "
IN$0.$4
*$1*$3:=nondet($1);
IN$0.I$4 i8
*$1*$3:=nondet($1);
OUT$0
_;
" ++ "
INT3
halt;
"

def moves : String := "
MOVB.EB.IB modrm,i8
*8*modrm:=i8;
MOVW.EW.IVOW modrm,i16
*16*modrm:=i16;
MOVL.ED.IVOD modrm,i32
*32*modrm:=i32;
" ++ forms sizes "
MOV$0.I$6 reg$1,i$1
*$1*reg$1:=i$1;
MOV$0.MR$7 modrm,reg$1
*$1*modrm:=reg$1;
MOV$0.RM$7 reg$1,modrm
*$1*reg$1:=modrm{$1};
" ++ forms [["S", "sgnex"], ["Z", "zfill"]] "
MOV$0BW.GV.EBOW reg16,modrm
*16*reg16:=$1(8,15,modrm{8});
MOV$0BL.GV.EBOD reg32,modrm
*32*reg32:=$1(8,31,modrm{8});
MOV$0WL.GV.EW reg32,modrm
*32*reg32:=$1(16,31,modrm{16});
"

def stack : String := forms [["W", "16", "OW", "2", "15"], ["L", "32", "OD", "4", "31"]] "
POP$0.EV$2 modrm
*$1*modrm:=m[%esp]{$1}
*32*%esp:=%esp+$3;
POP$0.$2 reg$1
*$1*reg$1:=m[%esp]{$1}
*32*%esp:=%esp+$3;
PUSH$0.EV$2 modrm
*$1*m[%esp - $3]:=modrm{$1}
*32*%esp:=%esp - $3;
PUSH$0.IV$2 i$1
*32*%esp:=%esp - $3
*$1*m[%esp]:=i$1;
PUSH$0.$2 reg$1
*32*%esp:=%esp - $3
*$1*m[%esp]:=reg$1;
PUSHF$0
*32*%esp:=%esp - $3
*$1*m[%esp]:=(zfill(1,$4,%OF)<<11)|(zfill(1,$4,%DF)<<10)|(zfill(1,$4,%IF)<<9)|(zfill(1,$4,%SF)<<7)
|(zfill(1,$4,%ZF)<<6)|(zfill(1,$4,%AF)<<4)|(zfill(1,$4,%PF)<<2)|zfill(1,$4,%CF);
" ++ forms [["DS", "%ds"], ["ES", "%es"], ["FS", "%fs"], ["GS", "%gs"], ["SS", "%ss"]] "
POPL.$0
*16*$1:=m[%esp]{16}
*32*%esp:=%esp+4;
" ++ forms [["CS", "%cs"], ["DS", "%ds"], ["ES", "%es"], ["FS", "%fs"], ["GS", "%gs"], ["SS", "%ss"]] "
PUSHL.$0
*32*%esp:=%esp - 4
*16*m[%esp]:=$1;
" ++ forms [["W", "16", "2", "1"], ["L", "32", "4", "m[%esp]{32}@[10:10]"]] "
POPF$0
*1*%CF:=m[%esp]{$1}@[0:0]
*1*%PF:=m[%esp]{$1}@[2:2]
*1*%AF:=m[%esp]{$1}@[4:4]
*1*%ZF:=m[%esp]{$1}@[6:6]
*1*%SF:=m[%esp]{$1}@[7:7]
*1*%IF:=m[%esp]{$1}@[9:9]
*1*%DF:=$3
*1*%OF:=m[%esp]{$1}@[11:11]
*32*%esp:=%esp+$2;
" ++ "
POPA
*32*%edi:=m[%esp]{32}
*32*%esi:=m[%esp+4]{32}
*32*%ebp:=m[%esp+8]{32}
*32*%ebx:=m[%esp+16]{32}
*32*%edx:=m[%esp+20]{32}
*32*%ecx:=m[%esp+24]{32}
*32*%eax:=m[%esp+28]{32}
*32*%esp:=%esp+32;
PUSHA
*32*m[%esp - 4]:=%eax
*32*m[%esp - 8]:=%ecx
*32*m[%esp - 12]:=%edx
*32*m[%esp - 16]:=%ebx
*32*m[%esp - 20]:=%esp
*32*m[%esp - 24]:=%ebp
*32*m[%esp - 28]:=%esi
*32*m[%esp - 32]:=%edi
*32*%esp:=%esp - 32;
PUSHL.IXOB i8
*32*%esp:=%esp - 4
*32*m[%esp]:=sgnex(8,31,i8);
PUSHW.IXOW i8
*32*%esp:=%esp - 2
*16*m[%esp]:=sgnex(8,15,i8);
RDTSC
*64*tmpl:=tickcount(64)
*32*%eax:=tmpl@[0:31]
*32*%edx:=tmpl@[32:63];
"

def exchange : String := forms [
  ["B.AL.IB", "8", "tmpb", "", "%al", "i8"], ["W.EAX.IVOW", "16", "tmph", "", "%eax", "i16"],
  ["L.EAX.IVOD", "32", "tmp1", "", "%eax", "i32"], ["B.EB.IB", "8", "tmpb", "modrm,", "modrm{8}", "i8"],
  ["W.EW.IW", "16", "tmph", "modrm,", "modrm{16}", "i16"], ["L.ED.ID", "32", "tmp1", "modrm,", "modrm{32}", "i32"],
  ["B.EV.GB", "8", "tmpb", "modrm,", "modrm{8}", "reg8"], ["W.EV.GVOW", "16", "tmph", "modrm,", "modrm{16}", "reg16"],
  ["L.EV.GVOD", "32", "tmp1", "modrm,", "modrm{32}", "reg32"]] "
TEST$0 $3$5
*$1*$2:=$4&$5
LOGICALFLAGS$1($2);
" ++ forms [["B.EV.GB", "8", "tmpb"], ["W.EV.GVOW", "16", "tmph"], ["L.EV.GVOD", "32", "tmp"]] "
XADD$0 modrm,reg$1
*$1*$21:=modrm{$1}
*$1*$22:=reg$1
*$1*modrm:=$21+reg$1
*$1*reg$1:=$21
ADDFLAGS$1($21,$22,modrm);
" ++ forms [["W.AXOW", "16", "tmph", "%ax"], ["L.EAXOD", "32", "tmp1", "%eax"]] "
XCHG$0 reg$1
*$1*$2:=reg$1
*$1*reg$1:=$3
*$1*$3:=$2;
" ++ forms [["B.EB.GB", "8", "tmpb"], ["W.EV.GVOW", "16", "tmph"], ["L.EV.GVOD", "32", "tmp1"]] "
XCHG$0 modrm,reg$1
*$1*$2:=modrm{$1}
*$1*modrm:=reg$1
*$1*reg$1:=$2;
" ++ "
WAIT _ ;
"

end FlowRecovery.IA32
