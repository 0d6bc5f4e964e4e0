import FlowRecovery.IA32.Code.Form

/-!
# Operation codes

What the operation codes stand for. The letters of operands are those of the manuals of the
processor.
-/

namespace FlowRecovery.IA32.OpcodeMap

abbrev Eb : Slot := .generalOrMemory .byte
abbrev Ev : Slot := .generalOrMemory .sized
abbrev Ew : Slot := .generalOrMemory .word
abbrev Ed : Slot := .generalOrMemory .double
abbrev Ep : Slot := .generalOrMemory .pointer
abbrev Eq : Slot := .generalOrMemory .quad
abbrev Efs : Slot := .generalOrMemory .floatSingle
abbrev Efd : Slot := .generalOrMemory .floatDouble
abbrev Efe : Slot := .generalOrMemory .floatExtended
abbrev Gb : Slot := .general .byte
abbrev Gv : Slot := .general .sized
abbrev Gw : Slot := .general .word
abbrev Gd : Slot := .general .double
abbrev Ib : Slot := .immediate .byte
abbrev Iv : Slot := .immediate .sized
abbrev Iw : Slot := .immediate .word
abbrev Jb : Slot := .relative .byte
abbrev Jv : Slot := .relative .sized
abbrev Ob : Slot := .offset .byte
abbrev Ov : Slot := .offset .sized
abbrev Xb : Slot := .stringSource .byte
abbrev Xv : Slot := .stringSource .sized
abbrev Yb : Slot := .stringTarget .byte
abbrev Yv : Slot := .stringTarget .sized
abbrev Wq : Slot := .vectorOrMemory .quad
abbrev Wdq : Slot := .vectorOrMemory .octa
abbrev Wps : Slot := .vectorOrMemory .packedSingles
abbrev Wpd : Slot := .vectorOrMemory .packedDoubles
abbrev Wss : Slot := .vectorOrMemory .scalarSingle
abbrev Wsd : Slot := .vectorOrMemory .scalarDouble
abbrev Qd : Slot := .mediaOrMemory .double
abbrev Qq : Slot := .mediaOrMemory .quad
abbrev Qdq : Slot := .mediaOrMemory .octa
abbrev Qpi : Slot := .mediaOrMemory .packedIntegers
abbrev Ap : Slot := .far
abbrev Sw : Slot := .segment
abbrev V : Slot := .vector
abbrev P : Slot := .media
abbrev Cd : Slot := .control
abbrev Dd : Slot := .debug
abbrev Rd : Slot := .modeRegister
abbrev Rm : Slot := .plainRegister
abbrev ST0 : Slot := .floatTop
abbrev STi : Slot := .floatRegister
abbrev rAX : Slot := .sizedRegister 0
abbrev rCX : Slot := .sizedRegister 1
abbrev rDX : Slot := .sizedRegister 2
abbrev rBX : Slot := .sizedRegister 3
abbrev rSP : Slot := .sizedRegister 4
abbrev rBP : Slot := .sizedRegister 5
abbrev rSI : Slot := .sizedRegister 6
abbrev rDI : Slot := .sizedRegister 7
abbrev AL : Slot := .fixed (.byte 0)
abbrev CL : Slot := .fixed (.byte 1)
abbrev DL : Slot := .fixed (.byte 2)
abbrev BL : Slot := .fixed (.byte 3)
abbrev AH : Slot := .fixed (.byte 4)
abbrev CH : Slot := .fixed (.byte 5)
abbrev DH : Slot := .fixed (.byte 6)
abbrev BH : Slot := .fixed (.byte 7)
abbrev AX : Slot := .fixed (.word 0)
abbrev DX : Slot := .fixed (.word 2)
abbrev ES : Slot := .fixed (.segment 0)
abbrev CS : Slot := .fixed (.segment 1)
abbrev SS : Slot := .fixed (.segment 2)
abbrev DS : Slot := .fixed (.segment 3)
abbrev FS : Slot := .fixed (.segment 4)
abbrev GS : Slot := .fixed (.segment 5)
abbrev Td : Slot := .test
abbrev Mp : Slot := .farMemory

def formOf (k : InstructionKind) (name : String) (slots : List Slot) : Option Form := some ⟨name, k, slots, true⟩

def plain : String → List Slot → Option Form := formOf .plain

def arith : String → List Slot → Option Form := formOf .arithmetic

def move : String → List Slot → Option Form := formOf .move

def call : String → List Slot → Option Form := formOf .call

def jump : String → List Slot → Option Form := formOf .jump

def branch : String → List Slot → Option Form := formOf .branch

def ret : String → List Slot → Option Form := formOf .ret

def media (name : String) (slots : List Slot) : Option Form := some ⟨name, .plain, slots, false⟩

def mediaMove (name : String) (slots : List Slot) : Option Form := some ⟨name, .move, slots, false⟩

instance : Coe (Option Form) (Option Opcode) := ⟨Option.map .form⟩

def group (fs : List (Option Form)) : Option Opcode := some (.group fs)

/-! ### Families -/

def each {α : Type} (as : List α) (f : α → Option Form) : List (Option Opcode) := as.map fun a => f a

def registers : List Slot := [rAX, rCX, rDX, rBX, rSP, rBP, rSI, rDI]

/-- The names of the conditions. That of "not less" is not always the same. -/
def conditions (notLess : String) : List String :=
  ["o", "no", "b", "ae", "e", "ne", "be", "a", "s", "ns", "p", "np", "l", notLess, "le", "g"]

/-! ### Groups

Operation codes that share a first byte and are told apart by the register field of the mode byte.
-/

def arithmetic (size : String) (slots : List Slot) : List (Option Form) :=
  (["add", "or", "adc", "sbb", "and", "sub", "xor"].map fun name => arith (name ++ size) slots) ++
    [plain ("cmp" ++ size) slots]

def shifts (size : String) (slots : List Slot) : List (Option Form) :=
  (["rol", "ror", "rcl", "rcr", "shl", "shr"].map fun name => arith (name ++ size) slots) ++
    [none, arith ("sar" ++ size) slots]

def unary (size : String) (place number accumulator : Slot) : List (Option Form) :=
  [plain ("test" ++ size) [place, number], none, arith ("not" ++ size) [place], plain ("neg" ++ size) [place]] ++
    ["mul", "imul", "div", "idiv"].map fun name => arith (name ++ size) [accumulator, place]

def stepByte : List (Option Form) := [
  arith "incb" [Eb], arith "decb" [Eb], none, none, none, none, none, none]

def stepSized : List (Option Form) := [
  arith "incS" [Ev], arith "decS" [Ev], call "call" [Ev], call "lcall" [Ep], jump "jmp" [Ev], jump "ljmp" [Ep],
  plain "pushS" [Ev], none]

def descriptors : List (Option Form) :=
  (["sldt", "str", "lldt", "ltr", "verr", "verw"].map (plain · [Ew])) ++ [none, none]

def system : List (Option Form) :=
  (["sgdt", "sidt", "lgdt", "lidt", "smsw"].map (plain · [Ew])) ++ [none, plain "lmsw" [Ew], plain "invlpg" [Ew]]

def bitTest : List (Option Form) :=
  [none, none, none, none] ++ ["btS", "btsS", "btrS", "btcS"].map (plain · [Ev, Ib])

def compareExchange : List (Option Form) := [
  none, media "cmpxch8b" [Wq], none, none, none, none, none, none]

def mediaShifts (size : String) (p : Slot) : List (Option Form) := [
  none, none, arith ("psrl" ++ size) [p, Ib], none, arith ("psra" ++ size) [p, Ib], none, arith ("psll" ++ size) [p, Ib],
  none]

def mediaShiftQuads : List (Option Form) := [
  none, none, arith "psrlq" [P, Ib], none, none, none, arith "psllq" [P, Ib], none]

def vectorShiftQuads : List (Option Form) := [
  none, none, arith "psrlq" [Wdq, Ib], arith "psrldq" [Wdq, Ib], none, none, arith "psllq" [Wdq, Ib],
  arith "psllq" [Wdq, Ib]]

def mediaState : List (Option Form) := [
  media "fxsave" [Eb], media "fxrstor" [Eb], media "ldmxcsr" [Ed], media "stmxcsr" [Ed], none, none, none,
  media "clflush" [Eb]]

def prefetches : List (Option Form) :=
  (["prefetchnta", "prefetcht0", "prefetcht1", "prefetcht2"].map (media · [Eb])) ++ [none, none, none, none]

/-! ### Floating point

Operation codes `d8` to `df`. With a memory operand, the register field of the mode byte selects the
form; with a register operand, the operand field selects further. -/

def floatArithmetic (kind size : String) (e : Slot) : List (Option Form) :=
  let named (f : String → List Slot → Option Form) (name : String) := f (kind ++ name ++ size) [e]
  ["add", "mul"].map (named arith) ++ ["com", "comp"].map (named plain) ++
    ["sub", "subr", "div", "divr"].map (named arith)

def floatMemory : List (List (Option Form)) := [
  floatArithmetic "f" "s" Efs,
  [plain "flds" [Efs], none, plain "fsts" [Efs], plain "fstps" [Efs], plain "fldenv" [Ev], plain "fldcw" [Ew],
    plain "fnstenv" [Eb], plain "fnstcw" [Ew]],
  floatArithmetic "fi" "l" Ed,
  [plain "fildl" [Ed], none, plain "fistl" [Ed], plain "fistpl" [Ed], none, plain "fldt" [Efe], none,
    plain "fstpt" [Efe]],
  floatArithmetic "f" "l" Efd,
  [plain "fldl" [Efd], none, plain "fstl" [Efd], plain "fstpl" [Efd], plain "frstor" [Ev], none, plain "fnsave" [Ew],
    plain "fnstsw" [Ew]],
  floatArithmetic "fi" "" Ew,
  [plain "fild" [Ew], none, plain "fist" [Ew], plain "fistp" [Ew], plain "fbld" [Ev], plain "fildll" [Eq],
    plain "fbstp" [Ev], plain "fistpll" [Eq]]]

def bare (names : List String) : List (Option Form) := names.map (plain · [])

/-- Forms with register operands, by operation code and register field; a group by the operand
field. -/
def floatRegisters : List (List (Option Opcode)) := [
  [arith "fadd" [ST0, STi], arith "fmul" [ST0, STi], plain "fcom" [STi], plain "fcomp" [STi], arith "fsub" [ST0, STi],
    arith "fsubr" [ST0, STi], arith "fdiv" [ST0, STi], arith "fdivr" [ST0, STi]],
  [plain "fld" [STi], plain "fxch" [STi], group (bare ["fnop"]), none,
    group (bare ["fchs", "fabs"] ++ [none, none] ++ bare ["ftst", "fxam"]),
    group (bare ["fld1", "fldl2t", "fldl2e", "fldpi", "fldlg2", "fldln2", "fldz"]),
    group (bare ["f2xm1", "fyl2x", "fptan", "fpatan", "fxtract", "fprem1", "fdecstp", "fincstp"]),
    group (bare ["fprem", "fyl2xp1", "fsqrt", "fsincos", "frndint", "fscale", "fsin", "fcos"])],
  [none, none, none, none, none, group [none, plain "fucompp" [STi]], none, none],
  [none, none, none, none,
    group (bare ["feni(287 only)", "fdisi(287 only)", "fnclex", "fninit", "fnsetpm(287 only)"]), none, none, none],
  [arith "fadd" [STi, ST0], arith "fmul" [STi, ST0], none, none, arith "fsub" [STi, ST0], arith "fsubr" [STi, ST0],
    arith "fdiv" [STi, ST0], arith "fdivr" [STi, ST0]],
  [plain "ffree" [STi], none, plain "fst" [STi], plain "fstp" [STi], plain "fucom" [STi], plain "fucomp" [STi], none,
    none],
  [arith "faddp" [STi, ST0], arith "fmulp" [STi, ST0], none, group [none, plain "fcompp" []], arith "fsubrp" [STi, ST0],
    arith "fsubp" [STi, ST0], arith "fdivrp" [STi, ST0], arith "fdivp" [STi, ST0]],
  [none, none, none, none, group [plain "fnstsw" [AX]], none, none, none]]

/-! ### Operation codes of one byte -/

/-- The six codes of an operation with a source and a target, and the two codes after them. -/
def binary (f : String → List Slot → Option Form) (name : String) (next last : Option Form) : List (Option Opcode) :=
  [f (name ++ "b") [Eb, Gb], f (name ++ "S") [Ev, Gv], f (name ++ "b") [Gb, Eb], f (name ++ "S") [Gv, Ev],
    f (name ++ "b") [AL, Ib], f (name ++ "S") [rAX, Iv], next, last]

def oneByte : Array (Option Opcode) := (List.flatten [
  -- from 00 on
  binary arith "add" (plain "pushl" [ES]) (plain "popl" [ES]), binary arith "or" (plain "pushl" [CS]) none,
  binary arith "adc" (plain "pushl" [SS]) (plain "popl" [SS]),
  binary arith "sbb" (plain "pushl" [DS]) (plain "popl" [DS]),
  -- from 20 on
  binary arith "and" none (plain "daa" []), binary arith "sub" none (plain "das" []),
  binary arith "xor" none (plain "aaa" []), binary plain "cmp" none (plain "aas" []),
  -- from 40 on
  each registers (arith "incS" [·]), each registers (arith "decS" [·]), each registers (plain "pushS" [·]),
  each registers (plain "popS" [·]),
  -- from 60 on
  [plain "pusha" [], plain "popa" [], plain "boundS" [Gv, Ev], plain "arpl" [Ew, Gw], none, none, none, none,
    plain "pushS" [Iv], arith "imulS" [Gv, Ev, Iv], plain "pushl" [Ib], arith "imulS" [Gv, Ev, Ib],
    plain "insb" [Yb, DX], plain "insS" [Yv, DX], plain "outsb" [DX, Xb], plain "outsS" [DX, Xv]],
  each (conditions "nl") fun c => branch ("j" ++ c) [Jb],
  -- from 80 on
  [group (arithmetic "b" [Eb, Ib]), group (arithmetic "S" [Ev, Iv]), group (arithmetic "b" [Eb, Ib]),
    group (arithmetic "S" [Ev, Ib]), plain "testb" [Eb, Gb], plain "testS" [Ev, Gv], move "xchgb" [Eb, Gb],
    move "xchgS" [Ev, Gv], move "movb" [Eb, Gb], move "movS" [Ev, Gv], move "movb" [Gb, Eb], move "movS" [Gv, Ev],
    move "movw" [Ew, Sw], plain "leaS" [Gv, Ev], move "movw" [Sw, Ew], plain "popS" [Ev]],
  -- from 90 on
  [plain "nop" []], each registers.tail (move "xchgS" [·, rAX]),
  [plain "cwtl" [], plain "cltd" [], call "lcall" [Ap], plain "fwait" [], plain "pushfS" [], plain "popfS" [],
    plain "sahf" [], plain "lahf" []],
  -- from a0 on
  [move "movb" [AL, Ob], move "movS" [rAX, Ov], move "movb" [Ob, AL], move "movS" [Ov, rAX], plain "movsb" [Yb, Xb],
    plain "movsS" [Yv, Xv], plain "cmpsb" [Yb, Xb], plain "cmpsS" [Yv, Xv], plain "testb" [AL, Ib],
    plain "testS" [rAX, Iv], plain "stosb" [Yb, AL], plain "stosS" [Yv, rAX], plain "lodsb" [AL, Xb],
    plain "lodsS" [rAX, Xv], plain "scasb" [AL, Yb], plain "scasS" [rAX, Yv]],
  each [AL, CL, DL, BL, AH, CH, DH, BH] (move "movb" [·, Ib]), each registers (move "movS" [·, Iv]),
  -- from c0 on
  [group (shifts "b" [Eb, Ib]), group (shifts "S" [Ev, Ib]), ret "ret" [Iw], ret "ret" [], plain "lesS" [Gv, Ep],
    plain "ldsS" [Gv, Ep], move "movb" [Eb, Ib], move "movS" [Ev, Iv], plain "enter" [Iw, Ib], plain "leave" [],
    ret "lret" [Iw], ret "lret" [], plain "int3" [], plain "int" [Ib], plain "into" [], ret "iret" []],
  [group (shifts "b" [Eb]), group (shifts "S" [Ev]), group (shifts "b" [Eb, CL]), group (shifts "S" [Ev, CL]),
    plain "aam" [Ib], plain "aad" [Ib], none, plain "xlat" []],
  List.replicate 8 (some .coprocessor),
  -- from e0 on
  [branch "loopne" [Jb], branch "loope" [Jb], branch "loop" [Jb], branch "jCcxz" [Jb], plain "inb" [AL, Ib],
    plain "inS" [rAX, Ib], plain "outb" [Ib, AL], plain "outS" [Ib, rAX], call "call" [Jv], jump "jmp" [Jv],
    jump "ljmp" [Ap], jump "jmp" [Jb], plain "inb" [AL, DX], plain "inS" [rAX, DX], plain "outb" [DX, AL],
    plain "outS" [DX, rAX]],
  [plain "lock" [], none, plain "repne" [], plain "rep" [], plain "hlt" [], plain "cmc" [], group (unary "b" Eb Ib AL),
    group (unary "S" Ev Iv rAX), plain "clc" [], plain "stc" [], plain "cli" [], plain "sti" [], plain "cld" [],
    plain "std" [], group stepByte, group stepSized]]).toArray

/-! ### Operation codes of two bytes

The first byte is `0f`. A byte `f2`, `f3` or `66` in front can select another instruction; then it
no longer modifies it. -/

/-- Arithmetic on numbers with a point, from the code `58` on. The two conversions stand among it.
-/
def floats (size : String) (w : Slot) (convert convert' : Option Form) : List (Option Opcode) :=
  [arith ("add" ++ size) [V, w], arith ("mul" ++ size) [V, w], convert, convert', arith ("sub" ++ size) [V, w],
    media ("min" ++ size) [V, w], arith ("div" ++ size) [V, w], media ("max" ++ size) [V, w]]

/-- Arithmetic on packed integers, from the code `d0` on. Moves stand among it, and differences that
are cut off at the greatest and least number. -/
def packed (p q : Slot) (d6 d7 e6 e7 f7 : Option Form) (bytes words : String) : List (Option Opcode) :=
  let op (names : List String) := each names (arith · [p, q])
  let op' (names : List String) := each names (media · [p, q])
  List.flatten [
    [none], op ["psrlw", "psrld", "psrlq", "paddq", "pmullw"], [d6, d7], op ["psubusb", "psubusw"], op' ["pminub"],
    op ["pand", "paddusb", "paddusw"], op' ["pmaxub"], op ["pandn"],
    op' ["pavgb", "psraw", "psrad", "pavgw"], op ["pmulhuw", "pmulhw"], [e6, e7], op [bytes, words], op' ["pminsw"],
    op ["por", "paddsb", "paddsw"], op' ["pmaxsw"], op ["pxor"],
    [none], op ["psllw", "pslld", "psllq", "pmuludq", "pmaddwd", "psadbw"], [f7],
    op ["psubb", "psubw", "psubd", "psubq", "paddb", "paddw", "paddd"], [none]]

/-- The instructions whose operation code is `0f` and one more byte. -/
def twoBytes : Array (Option Opcode) := (List.flatten [
  -- from 00 on
  [group descriptors, group system, plain "larS" [Gv, Ew], plain "lslS" [Gv, Ew], none, none, plain "clts" [], none,
    plain "invd" [], plain "wbinvd" [], none, none, none, none, none, none],
  -- from 10 on
  [mediaMove "movups" [V, Wps], mediaMove "movups" [Wps, V], mediaMove "movlps" [Wq, V], mediaMove "movlps" [V, Wq],
    media "unpcklps" [V, Wq], media "unpckhps" [V, Wq], mediaMove "movhps" [V, Wq], mediaMove "movhps" [Wq, V],
    group prefetches, none, none, none, none, none, none, none],
  -- from 20 on
  [move "movl" [Rm, Cd], move "movl" [Rd, Dd], move "movl" [Cd, Rm], move "movl" [Dd, Rd], move "movl" [Rd, Td], none,
    move "movl" [Td, Rd], none, mediaMove "movaps" [V, Wps], mediaMove "movaps" [Wps, V], media "cvtpi2ps" [V, Qq],
    mediaMove "movntps" [Wps, V], media "cvttps2pi" [Qq, Wps], media "cvtps2pi" [Qq, Wps], media "ucomiss" [V, Wss],
    media "comiss" [V, Wps]],
  -- from 30 on
  each ["wrmsr", "rdtsc", "rdmsr", "rdpmc", "sysenter", "sysexit"] (media · []),
  [none, none, none, none, none, none, mediaMove "movnti" [Gv, Ev], none, none, none],
  -- from 40 on
  each (conditions "ge") fun c => move ("cmov" ++ c ++ "S") [Gv, Ev],
  [mediaMove "movmskps" [Ed, V]], each ["sqrtps", "rsqrtps", "rcpps"] (media · [V, Wps]),
  each ["andps", "andnps", "orps", "xorps"] (arith · [V, Wps]),
  floats "ps" Wps (media "cvtps2pd" [V, Wps]) (media "cvtdq2ps" [V, Wdq]),
  -- from 60 on
  each ["punpcklbw", "punpcklwd", "punpckldq"] (media · [P, Qd]),
  each ["packsswb", "pcmpgtb", "pcmpgtw", "pcmpgtd", "packuswb"] (media · [P, Qq]),
  each ["punpckhbw", "punpckhwd", "punpckhdq", "packssdw"] (media · [P, Qd]),
  [none, none, mediaMove "movd" [P, Ed], mediaMove "movq" [P, Eq]],
  -- from 70 on
  [media "pshufw" [P, Qq, Ib], group (mediaShifts "w" P), group (mediaShifts "d" P), group mediaShiftQuads],
  each ["pcmpeqb", "pcmpeqw", "pcmpeqd"] (media · [P, Qq]),
  [media "emms" [], none, none, none, none, none, none, mediaMove "movd" [Ed, P], mediaMove "movq" [Qq, P]],
  -- from 80 on
  each (conditions "ge") fun c => branch ("j" ++ c) [Jv], each (conditions "ge") fun c => plain ("set" ++ c) [Eb],
  -- from a0 on
  [plain "pushl" [FS], plain "popl" [FS], plain "cpuid" [], plain "btS" [Ev, Gv], plain "shldS" [Ev, Gv, Ib],
    plain "shldS" [Ev, Gv, CL], none, none, plain "pushl" [GS], plain "popl" [GS], media "rsm" [],
    plain "btsS" [Ev, Gv], plain "shrdS" [Ev, Gv, Ib], plain "shrdS" [Ev, Gv, CL], group mediaState,
    arith "imulS" [Gv, Ev]],
  -- from b0 on
  [plain "cmpxchgb" [Eb, Gb], plain "cmpxchgS" [Ev, Gv], plain "lssS" [Gv, Mp], plain "btrS" [Ev, Gv],
    plain "lfsS" [Gv, Mp], plain "lgsS" [Gv, Mp], move "movzbS" [Gv, Eb], move "movzwS" [Gv, Ew], none, none,
    group bitTest, plain "btcS" [Ev, Gv], plain "bsfS" [Gv, Ev], plain "bsrS" [Gv, Ev], move "movsbS" [Gv, Eb],
    move "movswS" [Gv, Ew]],
  -- from c0 on
  [arith "xaddb" [Eb, Gb], arith "xaddS" [Ev, Gv], media "cmpps" [V, Wps, Ib], mediaMove "movnti" [Ed, Gd],
    media "pinsrw" [P, Ed, Ib], media "pextrw" [Gd, P, Ib], media "shufps" [V, Wps, Ib], group compareExchange],
  each registers (plain "bswap" [·]),
  -- from d0 on
  packed P Qq none (mediaMove "pmovmskb" [Gd, P]) none (mediaMove "movntq" [Wq, V]) (mediaMove "maskmoveq" [P, Qpi])
    "psubsb" "psubsw"]).toArray

def codesFrom (first : UInt8) (codes : List (Option Opcode)) : List (UInt8 × Option Opcode) :=
  codes.mapIdx fun i o => (first + i.toUInt8, o)

def twoBytesF2 : List (UInt8 × Option Opcode) := List.flatten [
  codesFrom 0x10 [mediaMove "movsd" [V, Wsd], mediaMove "movsd" [V, Wsd]],
  codesFrom 0x2a [media "cvtsi2sd" [V, Ed], none, media "cvttsd2si" [Gd, Wsd], media "cvtsd2si" [Gd, Wsd]],
  codesFrom 0x51 [media "sqrtsd" [V, Wsd]],
  codesFrom 0x58 (floats "sd" Wsd (media "cvtsd2ss" [V, Wsd]) none),
  codesFrom 0x70 [media "pshuflw" [V, Wdq, Ib]],
  codesFrom 0xc2 [media "cmpsd" [V, Wsd, Ib]],
  codesFrom 0xd6 [mediaMove "movdq2q" [P, Wq]],
  codesFrom 0xe6 [media "cvtpd2dq" [V, Wpd]]]

def twoBytesF3 : List (UInt8 × Option Opcode) := List.flatten [
  codesFrom 0x10 [mediaMove "movss" [V, Wss], mediaMove "movss" [Wss, V]],
  codesFrom 0x2a [media "cvtsi2ss" [V, Ed], none, media "cvttss2si" [Gd, Wss], media "cvtss2si" [Gd, Wss]],
  codesFrom 0x51 (each ["sqrtss", "rsqrtss", "rcpss"] (media · [V, Wss])),
  codesFrom 0x58 (floats "ss" Wss (media "cvtss2sd" [V, Wss]) (media "cvttps2dq" [V, Wps])),
  codesFrom 0x6f [mediaMove "movdqu" [V, Wdq], media "pshufhw" [V, Wdq, Ib]],
  codesFrom 0x7e [mediaMove "movq" [V, Wq], mediaMove "movdqu" [Wdq, V]],
  codesFrom 0xc2 [media "cmpss" [V, Wss, Ib]],
  codesFrom 0xd6 [mediaMove "movq2dq" [V, Qq]],
  codesFrom 0xe6 [media "cvtdq2pd" [V, Wdq]]]

def twoBytes66 : List (UInt8 × Option Opcode) := List.flatten [
  codesFrom 0x10 [mediaMove "movupd" [V, Wpd], mediaMove "movupd" [Wpd, V], mediaMove "movlpd" [Wq, V],
    mediaMove "movlpd" [V, Wq], media "unpcklpd" [V, Wq], media "unpckhpd" [V, Wq], mediaMove "movhpd" [V, Wq],
    mediaMove "movhpd" [Wq, V]],
  codesFrom 0x28 [mediaMove "movapd" [V, Wpd], mediaMove "movapd" [Wpd, V], media "cvtpi2pd" [V, Qdq],
    mediaMove "movntpd" [Wpd, V], media "cvttpd2pi" [Qdq, Wpd], media "cvtpd2pi" [Qdq, Wpd], media "ucomisd" [V, Wsd],
    media "comisd" [V, Wsd]],
  codesFrom 0x50 [mediaMove "movmskpd" [Ed, V], media "sqrtpd" [V, Wpd]],
  codesFrom 0x54 (each ["andpd", "andnpd", "orpd", "xorpd"] (arith · [V, Wpd])),
  codesFrom 0x58 (floats "pd" Wpd (media "cvtpd2ps" [V, Wpd]) (media "cvtps2dq" [V, Wps])),
  codesFrom 0x60 (each ["punpcklbw", "punpcklwd", "punpckldq", "packsswb", "pcmpgtb", "pcmpgtw", "pcmpgtd", "packuswb"]
    (media · [V, Wdq])),
  codesFrom 0x68 (each ["punpckhbw", "punpckhwd", "punpckhdq", "packssdw"] (media · [P, Qdq])),
  codesFrom 0x6c [media "punpcklqdq" [V, Wdq], media "punpckhqdq" [V, Wdq], mediaMove "movd" [V, Ed],
    mediaMove "movdqa" [V, Wdq], media "pshufd" [V, Wdq, Ib], group (mediaShifts "w" P), group (mediaShifts "d" Wdq),
    group vectorShiftQuads],
  codesFrom 0x74 (each ["pcmpeqb", "pcmpeqw", "pcmpeqd"] (media · [V, Wdq])),
  codesFrom 0x7e [mediaMove "movd" [Ed, V], mediaMove "movdqa" [Wdq, V]],
  codesFrom 0xc2 [media "cmppd" [V, Wpd, Ib], none, media "pinsrw" [V, Ed, Ib], media "pextrw" [Gd, V, Ib],
    media "shufpd" [V, Wpd, Ib]],
  codesFrom 0xd0 (packed V Wdq (mediaMove "movq" [Wq, V]) (mediaMove "pmovmskb" [Gd, V]) (media "cvttpd2dq" [V, Wpd])
    (mediaMove "movntdq" [Wdq, V]) (mediaMove "maskmovdqu" [V, Wdq]) "psubusb" "psubusw")]

end FlowRecovery.IA32.OpcodeMap
