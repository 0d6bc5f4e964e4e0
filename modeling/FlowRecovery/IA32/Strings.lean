import FlowRecovery.IA32.Registers

/-!
# Strings of IA-32

Instructions on strings; a repeated one steers itself by `SKIP` and `RPT`.
-/

namespace FlowRecovery.IA32

def blocks : String := "
STC *1* %CF:=1;
STD *1* %DF:=1;
STI *1* %IF:=1;
" ++ forms [["B", "%al", "%ecx"], ["W", "%ax", "(%ecx<<1)"], ["L", "%eax", "(%ecx<<2)"]] "
REPSTOS$0.SUMMARY
MEMSET %edi,$1,%ecx
*32*%edi:=%edi+$2
*32*%ecx:=0;
REPMOVS$0.SUMMARY
MEMCPY %esi,%edi,$2
*32*%esi:=%esi+$2
*32*%edi:=%edi+$2
*32*%ecx:=0;
"

def strings : String := "
REPS:=\x7b\"REP\",\"REPNE\"\x7d;
OREPS:=\x7bREPS,\"\"\x7d;
STRFL:=\x7b\"CMPSB\",\"CMPSW\",\"CMPSL\",\"SCASB\",\"SCASW\",\"SCASL\"\x7d;
STRNF:=\x7b\"LODSB\",\"LODSW\",\"LODSL\",\"MOVSB\",\"MOVSW\",\"MOVSL\",\"STOSB\",\"STOSW\",\"STOSL\",
\"INSB\",\"INSW\",\"INSL\",\"OUTSB\",\"OUTSW\",\"OUTSL\"\x7d;
STRS:=\x7bSTRFL,STRNF\x7d;
STRS_R:=REPS STRS;
STRS_R[X]
*1*%SKIP:=(%ecx=0);
" ++ forms [["B", "8", "tmpb", "%al", "1"], ["W", "16", "tmph", "%ax", "2"], ["L", "32", "tmp1", "%eax", "4"]] "
STRFL$0:=OREPS \x7b\"CMPS$0\",\"SCAS$0\"\x7d;
STRSI$0:=OREPS \x7b\"CMPS$0\",\"LODS$0\",\"MOVS$0\",\"OUTS$0\"\x7d;
STRDI$0:=OREPS \x7b\"CMPS$0\",\"MOVS$0\",\"SCAS$0\",\"STOS$0\",\"INS$0\"\x7d;
CMPS$0_OR:=OREPS CMPS$0;
LODS$0_OR:=OREPS LODS$0;
MOVS$0_OR:=OREPS MOVS$0;
SCAS$0_OR:=OREPS SCAS$0;
STOS$0_OR:=OREPS STOS$0;
INS$0_OR:=OREPS INS$0;
CMPS$0_OR[X]
*$1*$2:=m[%esi]{$1}-m[%edi]{$1};
LODS$0_OR[X]
*$1*$3:=m[%esi]{$1};
MOVS$0_OR[X]
*$1*m[%edi]:=m[%esi]{$1};
SCAS$0_OR[X]
*$1*$2:=$3-m[%edi]{$1};
STOS$0_OR[X]
*$1*m[%edi]:=$3;
INS$0_OR[X]
*$1*$3:=nondet($1);
STRFL$0[X]
SUBFLAGS$1(m[%esi]{$1},m[%edi]{$1},$2);
STRSI$0[IDX]
*32*%esi:=%esi+[%DF=0?$4:-$4];
STRDI$0[IDX]
*32*%edi:=%edi+[%DF=0?$4:-$4];
" ++ "
STRS_R[X]
*32*%ecx:=%ecx - 1;
REPIFZ:=REP STRFL;
REPIFZ[X]
*1*%RPT:=%ZF;
REPIFNZ:=REPNE STRFL;
REPIFNZ[X]
*1*%RPT:=~%ZF;
REPALL:=REPS STRNF;
REPALL[X]
*1*%RPT:=1;
"

end FlowRecovery.IA32
