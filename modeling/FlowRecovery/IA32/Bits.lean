import FlowRecovery.IA32.Registers

/-!
# Bits of IA-32

Tests of bits, rotations and shifts.
-/

namespace FlowRecovery.IA32

def bitTests : String := forms [words, doubles] "
BSR$0 modrm,reg$1
*1*%ZF:=nondet(1)
*$1*reg$1:=nondet($1);
BT$0.OR$6 modrm,reg$1
*1*%CF:=modrm{$1}@[reg$1:reg$1];
BT$0.OI$6 modrm,i8
*1*%CF:=modrm{$1}@[i8:i8];
BTR$0.OI$6 modrm,i8
*1*%CF:=modrm@[i8:i8]
*1*modrm@[i8:i8]:=0;
" ++ forms [["W", "16", "W", "{16}"], ["L", "32", "D", ""]] "
BTR$0.OR$2 modrm,reg$1
*1*%CF:=modrm$3@[reg$1:reg$1]
*1*modrm@[reg$1:reg$1]:=0;
" ++ forms [["C", "^"], ["S", "|"]] "
BT$0L.OD modrm,reg32
*32*tmp1:=1<<reg32
*1*%CF:=modrm@[reg32:reg32]
*32*modrm:=modrm$1tmp1;
"

/-- The forms differ in the places of the number before and after, in the operands, and in the
count. -/
def rotations : String := "
OP4:=\x7b\"rlc\",\"rrc\",\"rl\",\"rr\"\x7d;
" ++ forms sizes "
ROT$0:=\x7b\"RCL$0\",\"RCR$0\",\"ROL$0\",\"ROR$0\"\x7d;
ROLS$0:=\x7b\"RCL$0\",\"ROL$0\"\x7d;
RORS$0:=\x7b\"RCR$0\",\"ROR$0\"\x7d;
" ++ forms [
  ["B", "8", "tmpb", "8", "EV.1", "modrm", "tmpb", "1", "1"],
  ["W", "16", "tmph", "16", "EV.1OW", "modrm", "tmph1", "1", "1"],
  ["L", "32", "tmp", "32", "EV.1OD", "modrm", "tmp1", "1", "1"],
  ["B", "8", "tmpb", "8", "EV.CL", "modrm", "tmpb1", "%ecx", "%ecx"],
  ["W", "16", "tmph", "16", "EV.CLOW", "modrm", "tmph1", "%ecx", "%ecx"],
  ["L", "32", "tmp", "32", "EV.CLOD", "modrm", "tmp1", "%ecx", "%ecx"],
  ["B", "8", "tmpb", "8", "EB.IB", "modrm,i8", "tmpb1", "i8", "i8"],
  ["W", "16", "tmph", "16", "EV.IBOW", "modrm,i8", "tmph1", "sgnex(8,15,i8)", "i8"],
  ["L", "32", "tmp", "8", "EV.IBOD", "modrm,i8", "tmp1", "i8", "i8"]] "
ROT$0[IDX].B.$4 $5
*$1*$21:=modrm{$3}
*$1*$22:=$6 OP4[IDX] $7
*$1*modrm:=$22;
ROLS$0[IDX].B.$4 $5 ROLFLAGS$1($22,$21,$8);
RORS$0[IDX].B.$4 $5 RORFLAGS$1($22,$21,$8);
"

def shifts : String := "
OP5:=\x7b\"<<\",\">>A\",\">>\"\x7d;
" ++ forms sizes "
SHT$0:=\x7b\"SHL$0\",\"SAR$0\",\"SHR$0\"\x7d;
" ++ forms [
  ["B", "8", "tmpb", "EB.1", "modrm", "1", "modrm{8}", "tmpb"],
  ["W", "16", "tmph", "EV.1OW", "modrm", "1", "modrm{16}", "modrm{16}"],
  ["L", "32", "tmp1", "EV.1OD", "modrm", "1", "modrm", "tmp1"],
  ["B", "8", "tmpb", "EB.CL", "modrm", "%ecx", "modrm{8}", "tmpb"],
  ["W", "16", "tmph", "EV.CLOW", "modrm", "%ecx", "modrm{16}", "tmph"],
  ["L", "32", "tmp1", "EV.CLOD", "modrm", "%ecx", "modrm", "tmp1"],
  ["B", "8", "tmpb", "EB.IB", "modrm,i8", "i8", "modrm{8}", "tmpb"],
  ["W", "16", "tmph", "EV.IBOW", "modrm,i8", "i8", "modrm{16}", "tmph"],
  ["L", "32", "tmp1", "EV.IBOD", "modrm,i8", "i8", "modrm", "tmp1"]] "
SHT$0[IDX].B.$3 $4
*$1*$2:=modrm{$1}
*$1*modrm:=modrm{$1} OP5[IDX] $5;
SHL$0.B.$3 $4 SALFLAGS$1($6,$7,$5);
SAR$0.B.$3 $4 SARFLAGS($6,$2,$5);
SHR$0.B.$3 $4 SHRFLAGS$1($6,$2,$5);
"

def doubleShifts : String := "
OP6:=\x7b\"<<\",\">>\"\x7d;
SHTDW:=\x7b\"SHLDW\",\"SHRDW\"\x7d;
SHTDL:=\x7b\"SHLDL\",\"SHRDL\"\x7d;
" ++ forms [
  ["W", "16", "15", "tmp", "32", "31", "CLOW", "reg16", "%cl"],
  ["L", "32", "31", "tmpq", "64", "63", "CLOD", "reg32", "%cl"],
  ["W", "16", "15", "tmp", "32", "31", "IBOW", "reg16,i8", "i8"],
  ["L", "32", "31", "tmpq", "64", "63", "IBOD", "reg32,i8", "i8"]] "
SHTD$0[IDX].$6 modrm,$7
*8*tmpb:=zfill(5,7,$8@[0:4])
*$4*$32:=zfill($1,$5,reg$1)<<$1
*$4*$33:=$32+zfill($1,$5,modrm{$1})
*$4*$35:=$33 OP6[IDX] tmpb
*$1*modrm:=$35@[0:$2];
SHLD$0.$6 modrm,$7 SHLDFLAGS$4($35,$33,tmpb);
SHRD$0.$6 modrm,$7 SHRDFLAGS$4($35,$33,tmpb);
"

end FlowRecovery.IA32
