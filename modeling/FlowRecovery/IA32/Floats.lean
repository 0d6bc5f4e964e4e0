import FlowRecovery.IA32.Registers

/-!
# Floating point of IA-32

The floating point stack of eight registers.
-/

namespace FlowRecovery.IA32

def floatStack : String := "
FPUSH() \x7b
*f80* %st3:=%st2
*f80* %st2:=%st1
*f80* %st1:=%st0
\x7d;
FPOP() \x7b
*f80* %st0:=%st1
*f80* %st1:=%st2
*f80* %st2:=%st3
\x7d;
"

/-- Sums, products and quotients. The difference of the top and a short integer is not one of
numbers with a point. -/
def floatArithmetic : String := forms [["ADD", "+f"], ["SUB", "-f"], ["MUL", "*f"], ["DIV", "/f"]] "
F$0S.r32 modrm
*f80* %st0:=%st0 $1 fsize(32,80,modrm);
F$0L.r64 modrm
*f80* %st0:=%st0 $1 fsize(64,80,modrm);
F$0.ST.STi sti
*f80* %st0:=%st0 $1 sti;
FI$0L.i32 modrm
*f80* %st0:=%st0 $1 itof(32,80,modrm);
" ++ forms [["ADD", " +f "], ["SUB", "-"], ["MUL", " *f "], ["DIV", " /f "]] "
FI$0.i16 modrm
*f80* %st0:=%st0$1itof(16,80,modrm);
" ++ forms [["ADD", "sti +f %st0"], ["SUB", "sti -f %st0"], ["MUL", "%st0 *f sti"], ["DIV", "sti /f %st0"]] "
F$0.STi.ST sti
*f80* sti:=$1;
F$0P.STi.ST sti
*f80* sti:=$1
FPOP();
" ++ forms [["ADD", "+f"], ["SUB", "-f"]] "
F$0PS.r32 modrm
*f80* %st0:=%st0 $1 fsize(32,80,modrm)
FPOP();
F$0PL.r64 modrm
*f80* %st0:=%st0 $1 fsize(64,80,modrm)
FPOP();
F$0P.ST.STi sti
*f80* %st0:=%st0 $1 sti
FPOP();
" ++ forms [["SUB", "-f"], ["DIV", "/f"]] "
F$0RS.r32 modrm
*f80* %st0:=fsize(32,80,modrm) $1 %st0;
F$0RL.r64 modrm
*f80* %st0:=fsize(64,80,modrm) $1 %st0;
F$0R.ST.STi sti
*f80* %st0:=sti $1 %st0;
F$0R.STi.ST sti
*f80* sti:=%st0 $1 sti;
F$0RP.STi.ST sti
*f80* sti:=%st0 $1 sti
FPOP();
FI$0RL.i32 modrm
*f80* %st0:=itof(32,80,modrm) $1 %st0;
FI$0R.i16 modrm
*f80* %st0:=itof(16,80,modrm) $1 %st0;
"

def floatComparisons : String := forms [
  ["COMS.r32 modrm", "fsize(32,80,modrm)"], ["COML.r64 modrm", "fsize(64,80,modrm)"], ["COM.ST.STi sti", "sti"],
  ["ICOM.i16 modrm", "itof(16,80,modrm)"], ["ICOML.i32 modrm", "itof(32,80,modrm)"], ["UCOM sti", "sti"]] "
F$0
*f80* tmpD:=%st0 -f $1
SETFFLAGS(%st0,$1);
" ++ forms [
  ["COMPS.r32 modrm", "fsize(32,80,modrm)", "SETF"], ["COMPL.r64 modrm", "fsize(64,80,modrm)", "SETF"],
  ["COMP.ST.STi sti", "sti", "SETF"], ["COMPP", "%st1", "FPOP()\nSETF"], ["UCOMP sti", "sti", "SETF"],
  ["UCOMPP", "%st1", "FPOP()\nSETF"]] "
F$0
*f80* tmpD1:=%st0
*f80* tmpD2:=$1
*f80* tmpD:=%st0 -f $1
FPOP()
$2FLAGS(tmpD1,tmpD2);
" ++ forms [["ICOMP.i16", "16"], ["ICOMPL.i32", "32"]] "
F$0 modrm
*f80* tmpD:=%st0 -f itof($1,80,modrm)
FPOP()
SETFFLAGS(%st0,itof($1,80,modrm));
" ++ "
FTST
SETFFLAGS(%st0,0.0);
FUCOMI.ST.STi sti
*f80* tmpD:=%st0 -f sti
SUBFLAGSFL(%st0,sti);
FUCOMIP.ST.STi sti
*f80* tmpD1:=%st0
*f80* tmpD2:=sti
*f80* tmpD:=%st0 -f sti
FPOP()
SUBFLAGSFL(tmpD1,tmpD2);
"

def floatMoves : String := forms [
  ["ILD.lsI16 modrm", "itof(16,80,modrm)"], ["ILDL.lsI32 modrm", "itof(32,80,modrm)"],
  ["ILDLL.lsI64 modrm", "itof(64,80,modrm)"], ["LDS modrm", "fsize(32,80,modrm{32})"],
  ["LDL modrm", "fsize(64,80,modrm{64})"], ["LDT modrm", "modrm{80}"], ["LD1", "1.0"], ["LDL2T", "log2(10.0)"],
  ["LDL2E", "log2(2.7182818)"], ["LDPI", "3.1415926"], ["LDLG2", "log10(2.0)"], ["LDLN2", "loge(2.0)"],
  ["LDZ", "0.0"]] "
F$0
FPUSH()
*f80* %st0:=$1;
" ++ forms [
  ["IST modrm", "16", "modrm:=ftoi(80,16,%st0)"], ["ISTL modrm", "32", "modrm:=ftoi(80,32,%st0)"],
  ["ISTP modrm", "16", "modrm:=ftoi(80,16,%st0)\nFPOP()"], ["ISTPL modrm", "32", "modrm:=ftoi(80,32,%st0)\nFPOP()"],
  ["ISTPLL modrm", "64", "modrm:=ftoi(80,64,%st0)\nFPOP()"], ["STS modrm", "32", "modrm:=fsize(80,32,%st0)"],
  ["STL modrm", "64", "modrm:=fsize(80,64,%st0)"], ["ST sti", "f80", "sti:=%st0"],
  ["STPS modrm", "32", "modrm:=fsize(80,32,%st0)\nFPOP()"], ["STPL modrm", "64", "modrm:=fsize(80,64,%st0)\nFPOP()"],
  ["STPT modrm", "f80", "modrm:=%st0\nFPOP()"], ["STP sti", "f80", "sti:=%st0\nFPOP()"],
  ["STCW modrm", "16", "modrm:=%fcw"], ["NSTCW modrm", "16", "modrm:=%fcw"], ["STSW modrm", "16", "modrm:=%fsw"],
  ["STSW.AX", "16", "%ax:=%fsw"], ["NSTSW modrm", "16", "modrm:=%fsw"], ["NSTSW.AX", "16", "%ax:=%fsw"],
  ["LDCW modrm", "16", "%fcw:=modrm"]] "
F$0
*$1* $2;
" ++ "
FLD.STi sti
*f80* tmpD:=sti
FPUSH()
*f80* %st0:=tmpD;
FXCH sti
*f80* tmpD:=%st0
*f80* %st0:=sti
*f80* sti:=tmpD;
"

def floatFunctions : String := "
F2XM1
*f80* %st0:=(2.0 pow %st0) -f 1.0;
FABS
*f80* %st0:=fabs(%st0);
FCHS
*f80* %st0:=~f %st0;
FCLEX
*8*%fsw@[0:7]:=0
*1*%fsw@[15:15]:=0;
FNCLEX
*8*%fsw@[0:7]:=0
*1*%fsw@[15:15]:=0;
FCOS
*f80* %st0:=cos(%st0);
FINCSTP
FPUSH();
FINIT
_ ;
FNOP _ ;
FPATAN
*f80* %st1:=arctan(%st1 /f %st0)
FPOP();
FPREM
*f80* tmpD:=ftrunc(%st0 /f %st1)
*f80* %st0:=%st0 -f (%st1 *f tmpD)
*f80* %st0:=[%st1<0?~f %st0 : %st0];
FPREM1
*f80* tmpD:=ftrunc(%st0 /f %st1)
*f80* %st0:=%st0 -f (%st1 *f tmpD);
FPTAN
*f80* %st0:=tan(%st0)
FPUSH()
*f80* %st0:=1.0;
FRNDINT
*f80* %st0:=fround(80,80,%st0);
FSCALE
*f80* %st0:=%st0 *f (2.0 pow ftrunc(%st1));
FSIN
*f80* %st0:=sin(%st0);
FSINCOS
*f80* tmpD:=%st0
*f80* %st0:=sin(tmpD)
FPUSH()
*f80* %st0:=cos(tmpD);
FSQRT
*f80* %st0:=sqrt(%st0);
FWAIT _ ;
FYL2X
*f80* %st1:=%st1 *f log2(%st0)
FPOP();
FYL2XP1
*f80* %st1:=%st1 *f log2(%st0 +f 1.0)
FPOP();
"

end FlowRecovery.IA32
