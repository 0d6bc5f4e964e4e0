import FlowRecovery.IA32.Registers

/-!
# Vector registers of IA-32

Scalar and packed floating point operations on the 128-bit registers.
-/

namespace FlowRecovery.IA32

/-- An operation that is done for the lowest number, or for every number of a register, in two
sizes. -/
def lanewise (name transfer : String) : String := String.join ([
  ("SS", "32", ["0:31"]), ("SD", "64", ["0:63"]), ("PS", "32", ["0:31", "32:63", "64:95", "96:127"]),
  ("PD", "64", ["0:63", "64:127"])].map fun (kind, width, lanes) =>
    forms [[kind]] (name ++ " reg128,modrm\n") ++
      forms (lanes.map fun lane => [width, lane]) ("*$0*reg128@[$1]:=" ++ transfer ++ "\n") ++ ";\n")

def vectors : String := forms [["S", "32", "0:31"], ["D", "64", "0:63"]] "
MOVS$0.RM reg128,modrm
*$1*reg128@[$2]:=modrm{128}@[$2];
MOVS$0.MR modrm,reg128
*$1*modrm@[$2]:=reg128@[$2];
UCOMIS$0 reg128,modrm
*1*%ZF:=reg128@[$2]=modrm{128}@[$2]
*1*%CF:=reg128@[$2]<modrm{128}@[$2]
*1*%OF:=0
*1*%SF:=0;
" ++ "
LDMXCSR modrm
*32*%stmxcsr:=modrm{32};
STMXCSR modrm
*32*modrm:=%stmxcsr;
CVTSI2SS reg128,modrm
*32*reg128@[0:31]:=itof(32,32,modrm);
CVTSI2SD reg128,modrm
*64*reg128@[0:63]:=itof(32,64,modrm{32});
CVTTSD2SI reg32,modrm
*32*reg32:=ftoi(64,32,modrm{128}@[0:63]);
CVTTSS2SI reg32,modrm
*32*reg32:=ftoi(32,32,modrm{128}@[0:31]);
CVTSS2SD reg128,modrm
*64*reg128@[0:63]:=fsize(32,64,modrm{128}@[0:31]);
CVTSD2SS reg128,modrm
*32*reg128@[0:31]:=fsize(64,32,modrm{128}@[0:63]);
MOVD.RM reg128,modrm
*128*reg128:=zfill(32,127,modrm{32});
MOVD.MR modrm,reg128
*32*modrm:=reg128@[0:31];
SMOV:=\x7b\"MOVDQ\",\"MOVDQA\",\"MOVAPS\",\"MOVAPD\",\"MOVUPS\",\"MOVUPD\"\x7d;
SMOV[IDX]^\"MR\" modrm,reg128
*128*modrm:=reg128;
SMOV[IDX]^\"MR\" reg128,modrm
*128*reg128:=modrm{128};
SOPA:=\x7b\"+f\",\"-f\",\"*f\",\"/f\"\x7d;
GTLT:=\x7b\">\",\"<\"\x7d;
SOPL:=\x7b\"&\",\"|\",\"^\"\x7d;
" ++ forms [["SS"], ["SD"], ["PS"], ["PD"]] "
SARITH_$0:=\x7b\"ADD$0\",\"SUB$0\",\"MUL$0\",\"DIV$0\"\x7d;
MINMAX$0:=\x7b\"MAX$0\",\"MIN$0\"\x7d;
" ++ lanewise "SARITH_$0[IDX]" "reg128@[$1] SOPA[IDX] modrm{128}@[$1]" ++
  lanewise "SQRT$0" "sqrt(modrm{128}@[$1])" ++
  lanewise "MINMAX$0[IDX]" "[ modrm{128}@[$1] GTLT[IDX] reg128@[$1]?modrm{128}@[$1] : reg128@[$1]]" ++
  forms [["", "PS"], ["", "PD"], ["P", ""]] "
SLOG_$0$1:=\x7b\"$0AND$1\",\"$0OR$1\",\"$0XOR$1\"\x7d;
SLOG_$0$1[IDX] reg128,modrm
*128*reg128:=reg128 SOPL[IDX] modrm{128};
$0ANDN$1 reg128,modrm
*128*reg128:=~reg128&modrm{128};
"

end FlowRecovery.IA32
