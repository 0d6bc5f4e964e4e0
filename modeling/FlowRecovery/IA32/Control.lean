import FlowRecovery.IA32.Registers

/-!
# Control flow of IA-32

Calls, jumps, loops, returns and what depends on a condition.
-/

namespace FlowRecovery.IA32

def calls : String := "
CALL.JVOW reloc16
*32*%esp:=%esp - 2
*16*m[%esp]:=%pc@[0:15]
*32*%pc:=%pc+reloc16;
CALL.JVOD reloc32
*32*%esp:=%esp - 4
*32*m[%esp]:=%pc
*32*%pc:=%pc+reloc32;
CALL.EVOD modrm
*32*tmp1:=modrm
*32*%esp:=%esp - 4
*32*m[%esp]:=%pc
*32*%pc:=tmp1;
"

def jumps : String := "
CONDJ:=\x7b\"~(%CF|%ZF)\",\"~(%CF|~%ZF)\",\"~%CF\",\"~%CF\",
\"%CF\",\"%CF\",\"%CF|%ZF\",\"%CF|%ZF\",
\"%CF\",\"%cx=0\",\"%ZF\",\"%ZF\",
\"(%SF=%OF)&~%ZF\",\"(%SF=%OF)&~%ZF\",\"%SF=%OF\",\"%SF=%OF\",
\"%SF^%OF\",\"%SF^%OF\",\"(%SF^%OF)|%ZF\",\"(%SF^%ZF)|%ZF\",
\"~%CF\",\"~%ZF\",\"~%ZF\",\"~%OF\",
\"~%PF\",\"~%PF\",\"~%SF\",\"%OF\",
\"%PF\",\"%PF\",\"%SF\",\"%ecx=0\"\x7d;
JCCS:=\x7b\"JA\",\"JNBE\",\"JAE\",\"JNB\",
\"JB\",\"JNAE\",\"JBE\",\"JNA\",
\"JC\",\"JCXZ\",\"JE\",\"JZ\",
\"JG\",\"JNLE\",\"JGE\",\"JNL\",
\"JL\",\"JNGE\",\"JLE\",\"JNG\",
\"JNC\",\"JNE\",\"JNZ\",\"JNO\",
\"JNP\",\"JPO\",\"JNS\",\"JO\",
\"JP\",\"JPE\",\"JS\",\"JECXZ\"\x7d;
JSZW:=\x7b\".JVOW\"\x7d;
JSZD:=\x7b\".JVOD\"\x7d;
JSZB:=\x7b\".JB\"\x7d;
JMP32S:=JCCS JSZW;
JMP16S:=JCCS JSZD;
JMP8S:=JCCS JSZB;
JMP32S[IDX] reloc32
*32*%pc:=[(CONDJ[IDX]=1)?%pc+reloc32:%pc];
JMP16S[IDX] reloc16
*32*%pc:=[(CONDJ[IDX]=1)?%pc+reloc16:%pc];
JMP8S[IDX] reloc8
*32*%pc:=[(CONDJ[IDX]=1)?%pc+reloc8:%pc];
JMP.JB reloc8
*32*%pc:=%pc+reloc8;
JMP.JVOW reloc16
*32*%pc:=%pc+reloc16;
JMP.JVOD reloc32
*32*%pc:=%pc+reloc32;
JMP.EVOD modrm
*32*%pc:=modrm;
"

def loops : String := "
LAHF
*8*%ah:=zfill(1,7,%CF)|(zfill(1,7,%ZF)<<6)|(zfill(1,7,%SF)<<7);
LEAL.OD reg32,mem
*32*reg32:=addr(mem);
LEAW.OW reg16,mem
*16*reg16:=addr(mem);
LEAVE
*32*%esp:=%ebp
*32*%ebp:=m[%esp]{32}
*32*%esp:=%esp+4;
COND4:=\x7b\"%ecx~=0\",\"%ecx~=0&%ZF\",\"%ecx~=0&%ZF\",
\"%ecx~=0&~%ZF\",\"%ecx~=0&~%ZF\"\x7d;
LOOPS:=\x7b\"LOOP\",\"LOOPE\",\"LOOPZ\",\"LOOPNE\",\"LOOPNZ\"\x7d;
LOOPS[IDX] reloc8
*32*%ecx:=%ecx - 1
*32*%pc:=[COND4[IDX]?%pc+reloc8:%pc];
"

def returns : String := forms [["", ""], [".IW i16", "+zfill(16,31,i16)"]] "
RET$0
*32*retaddr:=m[%esp]{32}
*32*%esp:=%esp+4$1
*32*%pc:=retaddr;
LRET$0
*32*retaddr:=m[%esp]{32}
*16*%cs:=m[%esp+4]{16}
*32*%esp:=%esp+8$1
*32*%pc:=retaddr;
" ++ "
SAHF
*1*%SF:=%ah@[7:7]
*1*%ZF:=%ah@[6:6]
*1*%PF:=%ah@[2:2]
*1*%CF:=%ah@[0:0];
"

def conditions : String := "
CONDS:=\x7b\"~%CF&~%ZF\",\"~%CF&~%ZF\",\"~%CF\",\"~%CF\",
\"%CF\",\"%CF\",\"%CF|%ZF\",\"%CF|%ZF\",
\"%CF\",\"%ZF\",\"%ZF\",
\"~(%SF^%OF)&~%ZF\",\"~(%SF^%OF)&~%ZF\",\"~(%SF^%OF)\",\"~(%SF^%OF)\",
\"%SF^%OF\",\"%SF^%OF\",\"(%SF^%OF)|%ZF\",\"(%SF^%ZF)|%ZF\",
\"~%CF\",\"~%ZF\",\"~%ZF\",\"~%OF\",
\"~%PF\",\"~%PF\",\"~%SF\",\"%OF\",
\"%PF\",\"%PF\",\"%SF\"\x7d;
" ++ forms [["SET"], ["CMOV"]] "
$0CCS:=\x7b\"$0A\",\"$0NBE\",\"$0AE\",\"$0NB\",
\"$0B\",\"$0NAE\",\"$0BE\",\"$0NA\",
\"$0C\",\"$0E\",\"$0Z\",
\"$0G\",\"$0NLE\",\"$0GE\",\"$0NL\",
\"$0L\",\"$0NGE\",\"$0LE\",\"$0NG\",
\"$0NC\",\"$0NE\",\"$0NZ\",\"$0NO\",
\"$0NP\",\"$0PO\",\"$0NS\",\"$0O\",
\"$0P\",\"$0PE\",\"$0S\"\x7d;
" ++ "
SETCCS[IDX]^\"B\" modrm
*8*modrm:=[ CONDS[IDX]=1 ?1:0];
CMOVCCS[IDX]\"W\" reg16,modrm
*16*reg16:=[ CONDS[IDX]=1?modrm{16}:reg16];
CMOVCCS[IDX]\"L\" reg32,modrm
*32*reg32:=[ CONDS[IDX]=1?modrm{32}:reg32];
"

end FlowRecovery.IA32
