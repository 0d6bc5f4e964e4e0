import FlowRecovery.IA32.Code.Instruction

/-!
# Forms of instructions

An operation code stands for a form: a name, a kind, and how each operand is encoded. The letters of
the operand codes are those of the manuals of the processor: `Eb` is a byte in a register or in
memory, `Gv` a register of the operand size, `Ib` a number of one byte, and so on.
-/

namespace FlowRecovery.IA32

/-- How much an operand holds. -/
inductive Extent where
  | byte | sized | word | double | pointer | quad | octa
  | packedIntegers | packedSingles | packedDoubles | scalarSingle | scalarDouble
  | floatSingle | floatDouble | floatExtended
  deriving DecidableEq

namespace Extent

def code : Extent → Nat
  | byte => 1 | sized => 2 | word => 3 | double => 4 | pointer => 5 | octa => 6
  | packedIntegers => 7 | packedSingles => 8 | packedDoubles => 9 | scalarDouble => 10 | quad => 11 | scalarSingle => 12
  | floatSingle => 15 | floatDouble => 16 | floatExtended => 17

def type? (wide : Bool) : Extent → Option DataType
  | double => some .int32
  | sized => some (if wide then .int32 else .int16)
  | word => some .int16
  | byte => some .int8
  | quad => some .int64
  | octa => some .int128
  | floatSingle | scalarSingle => some .floatSingle
  | floatDouble | scalarDouble => some .floatDouble
  | floatExtended => some .floatExtended
  | packedSingles | packedDoubles => some .floatQuad
  | pointer | packedIntegers => none

def register? (wide : Bool) (n : Fin 8) : Extent → Option Register
  | byte => some (.byte n)
  | word => some (.word n)
  | double => some (.dword n)
  | sized => some (if wide then .dword n else .word n)
  | _ => none

end Extent

/-- How an operand is encoded. -/
inductive Slot where
  | generalOrMemory (e : Extent)
  | vectorOrMemory (e : Extent)
  | mediaOrMemory (e : Extent)
  | general (e : Extent)
  | vector
  | media
  | segment
  | control
  | debug
  | modeRegister
  | plainRegister
  | floatTop
  | floatRegister
  | immediate (e : Extent)
  | relative (e : Extent)
  | far
  | offset (e : Extent)
  | stringTarget (e : Extent)
  | stringSource (e : Extent)
  | sizedRegister (n : Fin 8)
  | fixed (r : Register)
  | test
  | farMemory
  deriving DecidableEq

namespace Slot

def hasMode : Slot → Bool
  | generalOrMemory _ | vectorOrMemory _ | mediaOrMemory _ | general _ | control | debug | floatTop | floatRegister =>
    true
  | _ => false

end Slot

/-- The form of an instruction. In the name, the letter `S` stands for the operand size, and `C` for
the address size. -/
structure Form where
  name : String
  kind : InstructionKind
  slots : List Slot
  modified : Bool
  deriving DecidableEq, Inhabited

def Form.hasMode (f : Form) : Bool := f.slots.any Slot.hasMode

/-- What an operation code stands for. -/
inductive Opcode where
  | form (f : Form)
  | group (forms : List (Option Form))
  | coprocessor
  deriving DecidableEq

end FlowRecovery.IA32
