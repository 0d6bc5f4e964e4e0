import FlowRecovery.DataType

/-!
# Operands of machine instructions

Registers, immediate numbers, memory locations and code addresses, with their texts. The text of an
address is the name that the program gives to it, so texts depend on a naming of addresses.
-/

namespace FlowRecovery.IA32

instance neZero_modes : @NeZero Nat Zero.ofOfNat0 4 := ⟨Nat.succ_ne_zero 3⟩

instance neZero_segments : @NeZero Nat Zero.ofOfNat0 6 := ⟨Nat.succ_ne_zero 5⟩

instance neZero_registers : @NeZero Nat Zero.ofOfNat0 8 := ⟨Nat.succ_ne_zero 7⟩

/-- A register, by its kind and its number in instruction codes. -/
inductive Register where
  | dword (n : Fin 8)
  | word (n : Fin 8)
  | byte (n : Fin 8)
  | segment (n : Fin 6)
  | xmm (n : Fin 8)
  | mmx (n : Fin 8)
  | control (n : Fin 5)
  | float (n : Fin 8)
  deriving DecidableEq

namespace Register

def text : Register → String
  | dword n => ["%eax", "%ecx", "%edx", "%ebx", "%esp", "%ebp", "%esi", "%edi"].get n
  | word n => ["%ax", "%cx", "%dx", "%bx", "%sp", "%bp", "%si", "%di"].get n
  | byte n => ["%al", "%cl", "%dl", "%bl", "%ah", "%ch", "%dh", "%bh"].get n
  | segment n => ["%es", "%cs", "%ss", "%ds", "%fs", "%gs"].get n
  | xmm n => "%xmm" ++ toString n.val
  | mmx n => "%mm" ++ toString n.val
  | control n => ["%cr0", "Invalid Control Register", "%cr2", "%cr3", "%cr4"].get n
  | float n => "%st" ++ toString n.val

end Register

/-- A memory location: `segment:displacement(base, index, scale)`. -/
structure MemoryOperand where
  type : DataType
  segment : Option (Fin 6)
  base : Option (Fin 8)
  index : Option (Fin 8)
  scale : Nat
  displacement : Int
  deriving DecidableEq, Inhabited

abbrev AddressNames := Int64 → String

def plainNames : AddressNames := fun a => "0x" ++ Text.hex64 a

namespace MemoryOperand

def displacementText (m : MemoryOperand) : String :=
  if m.displacement != 0 || (m.base.isNone && m.index.isNone) then
    if m.displacement > 0 then "0x" ++ Text.hex m.displacement.toNat else toString m.displacement
  else ""

def text (m : MemoryOperand) : String :=
  let scaled := m.scale > 1
  let enclosed := m.base.isSome || m.index.isSome || scaled
  let register (r : Option (Fin 8)) : String := (r.map (fun n => (Register.dword n).text)).getD ""
  (m.segment.map (fun s => (Register.segment s).text ++ ":")).getD "" ++ m.displacementText ++
    (if enclosed then "(" else "") ++ register m.base ++
    (if m.index.isSome || scaled then "," else "") ++ register m.index ++
    (if scaled then "," ++ toString m.scale else "") ++ (if enclosed then ")" else "")

end MemoryOperand

/-- An operand of a machine instruction. -/
inductive Operand where
  | immediate (value : Int) (type : DataType)
  | register (r : Register)
  | memory (m : MemoryOperand)
  | absolute (segment offset : Int)
  | relative (displacement : Int)
  deriving DecidableEq

namespace Operand

def text : Operand → String
  | immediate v _ => "$0x" ++ Text.hex32 v
  | register r => r.text
  | memory m => m.text
  | absolute s o =>
    (if s != 0 then "0x" ++ Text.hex s.toNat ++ ":" else "") ++ "0x" ++ Text.padLeft 8 '0' (Text.hex64 (Int64.ofInt o))
  | relative d => toString d

def addressText (names : AddressNames) (o : Operand) (target : Int64) : String :=
  if target < 0 then o.text else names target

/-- The text of an operand of an instruction of `size` bytes at the address `pc`. -/
def textAt (names : AddressNames) (pc : Int64) (size : Nat) (o : Operand) : String :=
  match o with
  | memory m =>
    if m.base.isNone && m.index.isNone && m.segment.isNone then names (Int64.ofInt m.displacement) else m.text
  | absolute s v => addressText names o (Int64.ofInt (v + 16 * s))
  | relative d => addressText names o (pc + Int64.ofInt d + Int64.ofNat size)
  | o => o.text

def isCodeAddress : Operand → Bool
  | absolute .. | relative _ => true
  | _ => false

end Operand

end FlowRecovery.IA32
