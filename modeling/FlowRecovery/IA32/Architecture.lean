import FlowRecovery.IA32.Arithmetic
import FlowRecovery.IA32.Bits
import FlowRecovery.IA32.Control
import FlowRecovery.IA32.Data
import FlowRecovery.IA32.Floats
import FlowRecovery.IA32.Registers
import FlowRecovery.IA32.Strings
import FlowRecovery.IA32.Vectors
import FlowRecovery.Spec.Architecture

/-!
# The IA-32 architecture

The specification of IA-32 is a text about registers (`IA32.base`) and a list of chapters
(`IA32.chapters`). A chapter says which groups of instructions its texts define, so that a group is
found without reading the other chapters. Only the functions that set flags are used by several
chapters; they stand at the start of each.
-/

namespace FlowRecovery.IA32

def operandVariables : List (String × Int) := [
  ("i8", unknownWidth), ("reg8", unknownWidth), ("modrm", unknownWidth), ("reg32", unknownWidth),
  ("i32", unknownWidth), ("i16", unknownWidth), ("reg16", unknownWidth), ("reg128", unknownWidth),
  ("reloc32", unknownWidth), ("reloc16", unknownWidth), ("sti", unknownWidth), ("reloc8", unknownWidth),
  ("stmxcsr", 32), ("mem", unknownWidth)]

/-- What a text about constants and registers defines, together with the parameters of instructions;
nothing if the text has a fault. -/
def baseOf (text : List Char) : Spec.Definitions :=
  match (do
    let d ← Architecture.define [text] { vars := ← Architecture.initialVariables }
    return { d with vars := (← d.vars.obtainAll operandVariables).2 } : Faulty Spec.Definitions) with
  | .ok d => d
  | .error _ => {}

def base : Spec.Definitions := baseOf registers.toList

def machineOf (d : Spec.Definitions) : Architecture :=
  match Architecture.bare d.declared d.vars with
  | .ok a => a
  | .error _ => default

/-- A part of the instruction set: the names of its groups of instructions, and the texts that
define them. -/
structure Chapter where
  names : List String
  texts : List String

namespace Chapter

/-- What texts define on top of what is given; nothing if they have a fault. -/
def read (d : Spec.Definitions) (texts : List (List Char)) : Spec.Definitions :=
  match Architecture.define texts d with
  | .ok d => d
  | .error _ => {}

/-- The chapter of texts, with the names of all that they define. -/
def ofTexts (texts : List String) : Chapter where
  names := ((read base (texts.map String.toList)).instructions.map fun p =>
    String.ofList (Architecture.groupName p.name)).eraseDups
  texts

def groups (c : Chapter) : List (String × List Template) :=
  let d := read base (c.texts.map String.toList)
  c.names.map (fun n => (n, Architecture.groupOf d n.toList))

end Chapter

def chapters : List Chapter := [
  { names := ["ADDB", "SUBB", "ADDW", "SUBW", "ADDL", "SUBL"],
    texts := [additionFlags, subtractionFlags, addition] },
  { names := ["ADCB", "SBBB", "ADCW", "SBBW", "ADCL", "SBBL"],
    texts := [additionFlags, subtractionFlags, carry] },
  { names := ["DECB", "INCB", "DECW", "INCW", "DECL", "INCL"],
    texts := [additionFlags, subtractionFlags, counting] },
  { names := ["BSWAP", "CMPB", "CMPW", "CMPL"],
    texts := [subtractionFlags, comparison] },
  { names := ["NEGB", "NEGW", "NEGL", "NOP", "NOTB", "NOTW", "NOTL"],
    texts := [subtractionFlags, negation] },
  { names := ["ANDB", "ORB", "XORB", "ANDW", "ORW", "XORW", "ANDL", "ORL", "XORL"],
    texts := [logicFlags, logic] },
  { names := [
      "JA", "JNBE", "JAE", "JNB", "JB", "JNAE", "JBE", "JNA", "JC", "JCXZ", "JE", "JZ", "JG", "JNLE", "JGE", "JNL",
      "JL", "JNGE", "JLE", "JNG", "JNC", "JNE", "JNZ", "JNO", "JNP", "JPO", "JNS", "JO", "JP", "JPE", "JS", "JECXZ",
      "JMP"],
    texts := [jumps] },
  { names := ["LAHF", "LEAL", "LEAW", "LEAVE", "LOOP", "LOOPE", "LOOPZ", "LOOPNE", "LOOPNZ"],
    texts := [loops] },
  .ofTexts [calls], .ofTexts [returns], .ofTexts [moves], .ofTexts [stack], .ofTexts [conversions],
  .ofTexts [additionFlags, logicFlags, exchange], .ofTexts [productFlags, products], .ofTexts [ports],
  .ofTexts [bitTests], .ofTexts [rotationFlags, rotations], .ofTexts [shiftFlags, shifts],
  .ofTexts [doubleShiftFlags, doubleShifts], .ofTexts [conditions], .ofTexts [subtractionFlags, blocks, strings],
  .ofTexts [floatFlags, floatStack, floatArithmetic, floatComparisons, floatMoves, floatFunctions],
  .ofTexts [vectors]]

def architecture : Architecture := { machineOf base with groups := chapters.flatMap Chapter.groups }

end FlowRecovery.IA32
