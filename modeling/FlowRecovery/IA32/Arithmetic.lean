import FlowRecovery.IA32.Registers

/-!
# Arithmetic of IA-32

Sums, comparisons, logic, products and negation on bytes, words and double words.
-/

namespace FlowRecovery.IA32

def addition : String := "
OP1:=\x7b\"+\",\"-\"\x7d;
ARITB:=\x7b\"ADDB\",\"SUBB\"\x7d;
ARITW:=\x7b\"ADDW\",\"SUBW\"\x7d;
ARITL:=\x7b\"ADDL\",\"SUBL\"\x7d;
ARITB[IDX].IAL i8
*8*tmpb:=%al
*8*%al:=%al OP1[IDX] i8;
ADDB.IAL i8 ADDFLAGS8(tmpb,i8,%al);
SUBB.IAL i8 SUBFLAGS8(tmpb,i8,%al);
ARITW[IDX].IAX i16
*16*tmph:=%ax
*16*%ax:=%ax OP1[IDX] i16;
ADDW.IAX i16 ADDFLAGS16(tmph,i16,%ax);
SUBW.IAX i16 SUBFLAGS16(tmph,i16,%ax);
ARITL[IDX].IEAX i32
*32*tmp1:=%eax
*32*%eax:=%eax OP1[IDX] i32;
ADDL.IEAX i32 ADDFLAGS32(tmp1,i32,%eax);
SUBL.IEAX i32 SUBFLAGS32(tmp1,i32,%eax);
ARITL[IDX].ID modrm,i32
*32*tmp1:=modrm
*32*modrm:=modrm OP1[IDX] i32;
ADDL.ID modrm,i32 ADDFLAGS32(tmp1,i32,modrm);
SUBL.ID modrm,i32 SUBFLAGS32(tmp1,i32,modrm);
ARITW[IDX].IW modrm,i16
*16*tmph:=modrm
*16*modrm:=modrm OP1[IDX] i16;
ADDW.IW modrm,i16 ADDFLAGS16(tmph,i16,modrm);
SUBW.IW modrm,i16 SUBFLAGS16(tmph,i16,modrm);
ARITB[IDX].IB modrm,i8
*8*tmpb:=modrm
*8*modrm:=modrm OP1[IDX] i8;
ADDB.IB modrm,i8 ADDFLAGS8(tmpb,i8,modrm);
SUBB.IB modrm,i8 SUBFLAGS8(tmpb,i8,modrm);
ARITW[IDX].IBOW modrm,i8
*16*tmph:=modrm
*16*modrm:=modrm OP1[IDX] sgnex(8,15,i8);
ADDW.IBOW modrm,i8 ADDFLAGS16(tmph,sgnex(8,15,i8),modrm);
SUBW.IBOW modrm,i8 SUBFLAGS16(tmph,sgnex(8,15,i8),modrm);
ARITL[IDX].IBOD modrm,i8
*32*tmp1:=modrm
*32*modrm:=modrm OP1[IDX] sgnex(8,31,i8);
ADDL.IBOD modrm,i8 ADDFLAGS32(tmp1,sgnex(8,31,i8),modrm);
SUBL.IBOD modrm,i8 SUBFLAGS32(tmp1,sgnex(8,31,i8),modrm);
ARITB[IDX].MRB modrm,reg8
*8*tmpb:=modrm
*8*modrm:=tmpb OP1[IDX] reg8;
ADDB.MRB modrm,reg8 ADDFLAGS8(tmpb,reg8,modrm);
SUBB.MRB modrm,reg8 SUBFLAGS8(tmpb,reg8,modrm);
ARITW[IDX].MROW modrm,reg16
*16*tmph:=modrm
*16*modrm:=tmph OP1[IDX] reg16;
ADDW.MROW modrm,reg16 ADDFLAGS16(tmph,reg16,modrm);
SUBW.MROW modrm,reg16 SUBFLAGS16(tmph,reg16,modrm);
ARITL[IDX].MROD modrm,reg32
*32*tmp1:=modrm
*32*modrm:=modrm OP1[IDX] reg32;
ADDL.MROD modrm,reg32 ADDFLAGS32(tmp1,reg32,modrm);
SUBL.MROD modrm,reg32 SUBFLAGS32(tmp1,reg32,modrm);
ARITB[IDX].RMB reg8,modrm
*8*tmpb:=reg8
*8*reg8:=reg8 OP1[IDX] modrm{8};
ADDB.RMB reg8,modrm ADDFLAGS8(tmpb,modrm{8},reg8);
SUBB.RMB reg8,modrm SUBFLAGS8(tmpb,modrm{8},reg8);
ARITW[IDX].RMOW reg16,modrm
*16*tmph:=reg16
*16*reg16:=reg16 OP1[IDX] modrm{16};
ADDW.RMOW reg16,modrm ADDFLAGS16(tmph,modrm{16},reg16);
SUBW.RMOW reg16,modrm SUBFLAGS16(tmph,modrm{16},reg16);
ARITL[IDX].RMOD reg32,modrm
*32*tmp1:=reg32
*32*reg32:=reg32 OP1[IDX] modrm;
ADDL.RMOD reg32,modrm ADDFLAGS32(tmp1,modrm,reg32);
SUBL.RMOD reg32,modrm SUBFLAGS32(tmp1,modrm,reg32);
"

def comparison : String := "
BSWAP reg32
*32*tmp1:=zfill(8,31,reg32@[24:31])
*32*tmp2:=zfill(8,31,reg32@[16:23])
*32*tmp3:=zfill(8,31,reg32@[8:15])
*32*tmp4:=reg32&0xFF
*32*reg32:=(tmp4<<24)+(tmp3<<16)+(tmp2<<8)+tmp1;
CMPB.IAL i8
*8*tmpb:=%al-i8
SUBFLAGS8(%al,i8,tmpb);
CMPW.IAX i16
*16*tmph:=%ax-i16
SUBFLAGS16(%ax,i16,tmph);
CMPL.IEAX i32
*32*tmp1:=%eax-i32
SUBFLAGS32(%eax,i32,tmp1);
CMPL.ID modrm,i32
*32*tmp1:=modrm{32}-i32
SUBFLAGS32(modrm,i32,tmp1);
CMPW.IW modrm,i16
*16*tmph:=modrm{16}-i16
SUBFLAGS16(modrm{16},i16,tmph);
CMPB.IB modrm,i8
*8*tmpb:=modrm{8}-i8
SUBFLAGS8(modrm{8},i8,tmpb);
CMPB.MRB modrm,reg8
*8*tmpb:=modrm{8}-reg8
SUBFLAGS8(modrm{8},reg8,tmpb);
CMPB.RMB reg8,modrm
*8*tmpb:=reg8-modrm{8}
SUBFLAGS8(reg8,modrm{8},tmpb);
CMPL.IBOD modrm,i8
*32*tmp1:=modrm{32}-sgnex(8,31,i8)
SUBFLAGS32(modrm{32},sgnex(8,31,i8),tmp1);
CMPW.IBOW modrm,i8
*16*tmph:=modrm{16}-sgnex(8,15,i8)
SUBFLAGS16(modrm{16},sgnex(8,15,i8),tmph);
CMPW.MROW modrm,reg16
*16*tmph:=modrm{16}-reg16
SUBFLAGS16(modrm{16},reg16,tmph);
CMPL.MROD modrm,reg32
*32*tmp1:=modrm{32}-reg32
SUBFLAGS32(modrm{32},reg32,tmp1);
CMPW.RMOW reg16,modrm
*16*tmph:=reg16-modrm{16}
SUBFLAGS16(reg16,modrm{16},tmph);
CMPL.RMOD reg32,modrm
*32*tmp1:=reg32-modrm{32}
SUBFLAGS32(reg32,modrm{32},tmp1);
"

def logic : String := "
OP1:=\x7b\"&\",\"|\",\"^\"\x7d;
" ++ forms sizes "
LOG$0:=\x7b\"AND$0\",\"OR$0\",\"XOR$0\"\x7d;
LOG$0[IDX].I$4 i$1
*$1*$3:=$3 OP1[IDX] i$1
LOGICALFLAGS$1($3);
LOG$0[IDX].I$6 modrm,i$1
*$1*modrm:=modrm{$1} OP1[IDX] i$1
LOGICALFLAGS$1(modrm);
LOG$0[IDX].MR$7 modrm,reg$1
*$1*modrm:=modrm{$1} OP1[IDX] reg$1
LOGICALFLAGS$1(modrm);
LOG$0[IDX].RM$7 reg$1,modrm
*$1*reg$1:=reg$1 OP1[IDX] modrm{$1}
LOGICALFLAGS$1(reg$1);
" ++ forms [words, doubles] "
LOG$0[IDX].IB$7 modrm,i8
*$1*modrm:=modrm OP1[IDX] sgnex(8,$5,i8)
LOGICALFLAGS$1(modrm);
"

def carry : String := "
OP2:=\x7b\"+\",\"-\"\x7d;
ARITH_CB:=\x7b\"ADCB\",\"SBBB\"\x7d;
ARITH_CW:=\x7b\"ADCW\",\"SBBW\"\x7d;
ARITH_CL:=\x7b\"ADCL\",\"SBBL\"\x7d;
ARITH_CB[IDX].IAL i8
*8*tmpb:=%al
*8*%al:=%al OP2[IDX] (i8+zfill(1,7,%CF));
ADCB.IAL i8 ADDFLAGS8(tmpb,i8,%al);
SBBB.IAL i8 SUBFLAGS8(tmpb,i8,%al);
ARITH_CW[IDX].IAX i16
*16*tmph:=%ax
*16*%ax:=%ax OP2[IDX] (i16+zfill(1,15,%CF));
ADCW.IAX i16 ADDFLAGS16(tmph,i16,%ax);
SBBW.IAX i16 SUBFLAGS16(tmph,i16,%ax);
ARITH_CL[IDX].IEAX i32
*32*tmp1:=%eax
*32*%eax:=%eax OP2[IDX] (i32+zfill(1,31,%CF));
ADCL.IEAX i32 ADDFLAGS32(tmp1,i32,%eax);
SBBL.IEAX i32 SUBFLAGS32(tmp1,i32,%eax);
ARITH_CL[IDX].ID reg32,i32
*32*tmp1:=reg32
*32*reg32:=reg32 OP2[IDX] (i32+zfill(1,31,%CF));
ADCL.ID reg32,i32 ADDFLAGS32(tmp1,i32,reg32);
SBBL.ID reg32,i32 SUBFLAGS32(tmp1,i32,reg32);
ARITH_CW[IDX].IW reg16,i16
*16*tmph:=reg16
*16*reg16:=reg16 OP2[IDX] (i16+zfill(1,15,%CF));
ADCW.IW reg16,i16 ADDFLAGS16(tmph,i16,reg16);
SBBW.IW reg16,i16 SUBFLAGS16(tmph,i16,reg16);
ARITH_CB[IDX].IB reg8,i8
*8*tmpb:=reg8
*8*reg8:=reg8 OP2[IDX] (i8+zfill(1,7,%CF));
ADCB.IB reg8,i8 ADDFLAGS8(tmpb,i8,reg8);
SBBB.IB reg8,i8 SUBFLAGS8(tmpb,i8,reg8);
ARITH_CL[IDX].IBOD reg32,i8
*32*tmp1:=reg32
*32*reg32:=reg32 OP2[IDX] (sgnex(8,31,i8)+zfill(1,31,%CF));
ADCL.IBOD reg32,i8 ADDFLAGS32(tmp1,sgnex(8,31,i8),reg32);
SBBL.IBOD reg32,i8 SUBFLAGS32(tmp1,sgnex(8,31,i8),reg32);
ARITH_CB[IDX].MRB modrm,reg8
*8*tmpb:=modrm
*8*modrm:=tmpb OP2[IDX] (reg8+zfill(1,7,%CF));
ADCB.MRB modrm,reg8 ADDFLAGS8(tmpb,reg8,modrm);
SBBB.MRB modrm,reg8 SUBFLAGS8(tmpb,reg8,modrm);
ARITH_CW[IDX].MROW modrm,reg16
*16*tmph:=modrm{16}
*16*modrm:=tmph OP2[IDX] (reg16+zfill(1,15,%CF));
ADCW.MROW modrm,reg16 ADDFLAGS16(tmph,reg16,modrm{16});
SBBW.MROW modrm,reg16 SUBFLAGS16(tmph,reg16,modrm{16});
ARITH_CL[IDX].MROD modrm,reg32
*32*tmp1:=modrm
*32*modrm:=modrm OP2[IDX] (reg32+zfill(1,31,%CF));
ADCL.MROD modrm,reg32 ADDFLAGS32(tmp1,reg32,modrm);
SBBL.MROD modrm,reg32 SUBFLAGS32(tmp1,reg32,modrm);
ARITH_CB[IDX].RMB reg8,modrm
*8*tmpb:=reg8
*8*reg8:=reg8 OP2[IDX] (modrm{8}+zfill(1,7,%CF));
ADCB.RMB reg8,modrm ADDFLAGS8(tmpb,modrm{8},reg8);
SBBB.RMB reg8,modrm SUBFLAGS8(tmpb,modrm{8},reg8);
ARITH_CW[IDX].RMOW reg16,modrm
*16*tmph:=reg16
*16*reg16:=reg16 OP2[IDX] (modrm{16}+zfill(1,15,%CF));
ADCW.RMOW reg16,modrm ADDFLAGS16(tmph,modrm{16},reg16);
SBBW.RMOW reg16,modrm SUBFLAGS16(tmph,modrm{16},reg16);
ARITH_CL[IDX].RMOD reg32,modrm
*32*tmp1:=reg32
*32*reg32:=reg32 OP2[IDX] (modrm{32}+zfill(1,31,%CF));
ADCL.RMOD reg32,modrm ADDFLAGS32(tmp1,modrm{32},reg32);
SBBL.RMOD reg32,modrm SUBFLAGS32(tmp1,modrm{32},reg32);
"

def counting : String := "
OP4:=\x7b\"-\",\"+\"\x7d;
" ++ forms sizes "
DEC_INC$0:=\x7b\"DEC$0\",\"INC$0\"\x7d;
" ++ forms [
  ["B", "8", "tmpb", "EB", "modrm", "modrm{8}"], ["W", "16", "tmph", "EVOW", "modrm", "modrm{16}"],
  ["L", "32", "tmp1", "EVOD", "modrm", "modrm"], ["W", "16", "tmph", "OW", "reg16", "reg16"],
  ["L", "32", "tmp1", "OD", "reg32", "reg32"]] "
DEC_INC$0[IDX].$3 $4
*$1*$2:=$5
*$1*$4:=$5 OP4[IDX] 1;
DEC$0.$3 $4 SUBFLAGS$1($2,1,$5);
INC$0.$3 $4 ADDFLAGS$1($2,1,$5);
"

def products : String := forms [["DIV", "", "DIVB.AL"], ["IDIV", "!", "IDIVB"]] "
$2 modrm
*16*tmph:=%ax
*8*%al:=tmph /$1 modrm{8}
*8*%ah:=tmph %$1 modrm{8}
undefineflags( );
$0W.AX modrm
*32*tmp1:=(zfill(16,31,%dx)<<16)|zfill(16,31,%ax)
*16*tmph:=modrm{16}
*16*%ax:=tmp1 /$1 tmph
*16*%dx:=tmp1 %$1 tmph
undefineflags( );
$0L.EAX modrm
*64*tmpl:=(zfill(32,63,%edx)<<32)|zfill(32,63,%eax)
*32*tmp2:=modrm
*32*%eax:=tmpl /$1 tmp2
*32*%edx:=tmpl %$1 tmp2
undefineflags( );
" ++ "
ENTER i16,i8
*32*%esp:=%esp - 4
*32*m[%esp]:=%ebp
*32*%ebp:=%esp
*32*%esp:=%esp-i16;
HLT
halt;
" ++ forms [["", "* modrm{16}", "* modrm{32}"], ["I", "*! modrm", "*! modrm"]] "
$0MULB.AL modrm
*16*%ax:=%al *! modrm{8}
$0MULTFLAGS8(%ax);
$0MULW.AX modrm
*32*tmp2:=%ax $1
*16*%ax:=tmp2@[0:15]
*16*%dx:=tmp2@[16:31]
$0MULTFLAGS16(tmp2);
$0MULL.EAX modrm
*64*tmpl:=%eax $2
*32*%eax:=tmpl@[0:31]
*32*%edx:=tmpl@[32:63]
$0MULTFLAGS32(tmpl);
" ++ forms [
  ["W.RMOW", "16", "modrm", "32", "tmp1", "15", "modrm{16} *! reg16"],
  ["L.RMOD", "32", "modrm", "64", "tmpl", "31", "modrm{32} *! reg32"],
  ["W.IVOW", "16", "modrm,i16", "32", "tmp1", "15", "modrm{16} *! i16"],
  ["L.IVOD", "32", "modrm,i32", "64", "tmpl", "31", "modrm{32} *! i32"],
  ["W.IBOW", "16", "modrm,i8", "32", "tmp1", "15", "modrm{8} *! sgnex(8,15,i8)"],
  ["L.IBOD", "32", "modrm,i8", "64", "tmpl", "31", "modrm{32} *! sgnex(8,31,i8)"]] "
IMUL$0 reg$1,$2
*$3*$4:=$6
*$1*reg$1:=$4@[0:$5]
IMULTFLAGS$1($4);
"

def negation : String := forms sizes "
NOT$0.$7 modrm
*$1*modrm:=~modrm{$1};
" ++ forms [["B", "8", "tmpb", "modrm{8}"], ["W", "16", "tmph", "modrm"], ["L", "32", "tmp1", "modrm"]] "
NEG$0 modrm
*$1*$2:=modrm{$1}
*$1*modrm:=0-modrm{$1}
SUBFLAGS$1(0,$2,$3);
" ++ "
NOP
_ ;
"

end FlowRecovery.IA32
