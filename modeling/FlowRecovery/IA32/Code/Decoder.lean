import FlowRecovery.Fault
import FlowRecovery.IA32.Code.OpcodeMap

/-!
# Decoding machine instructions

`Instruction.decode` reads one instruction from bytes of code. It reads bytes strictly from left to
right, and the size of an instruction is the number of bytes read; the mode byte alone may be looked
at before it is read. Bytes that are no instruction, or that end within one, give nothing;
`Instruction.read` says why. Where instructions are decoded one after the other, `Decoders` is what
each of them leaves to the next.
-/

namespace FlowRecovery.IA32

/-- Why bytes are no instruction. Without a fault, no instruction has such a code. -/
abbrev Undecoded := Option Fault

abbrev Reading := StateT Nat (Except Undecoded)

variable (code : ByteArray)

namespace Reading

def byteAt (i : Nat) : Except Undecoded UInt8 :=
  if h : i < code.size then .ok code[i] else .error (some .outsideArray)

def orElse {α : Type} (reason : Undecoded) : Option α → Reading α
  | some a => pure a
  | none => throw reason

def typeOf (e : Extent) (wide : Bool) : Reading DataType := orElse (some (.failure none)) (e.type? wide)

def byte : Reading UInt8 := fun i => (byteAt code i).map (fun b => (b, i + 1))

def peek : Reading UInt8 := fun i => (byteAt code i).map (fun b => (b, i))

/-- The number that the next `n` bytes hold, least significant byte first. -/
def number (code : ByteArray) : Nat → Reading Nat
  | 0 => pure 0
  | n + 1 => do
    let b ← byte code
    return b.toNat + 256 * (← number code n)

def signed8 : Reading Int := do return Int.bmod (← number code 1) 256

def unsigned16 : Reading Int := do return (← number code 2 : Nat)

def signed16 : Reading Int := do return Int.bmod (← number code 2) 65536

def signed32 : Reading Int := do return Int.bmod (← number code 4) 4294967296

end Reading

/-- The fields of the byte after the operation code, which says where the operands are. -/
structure ModeByte where
  mode : Fin 4
  reg : Fin 8
  rm : Fin 8
  deriving Inhabited

namespace ModeByte

def ofByte (b : UInt8) : ModeByte :=
  ⟨Fin.ofNat 4 (b.toNat / 64), Fin.ofNat 8 (b.toNat / 8), Fin.ofNat 8 b.toNat⟩

def none : ModeByte := ⟨0, 0, 0⟩

end ModeByte

/-- What operands depend on besides the bytes of code. -/
structure Frame where
  modeByte : ModeByte
  modifiers : Modifiers

variable (f : Frame)

namespace Frame

def wide : Bool := !f.modifiers.data

def wideAddress : Bool := !f.modifiers.address

end Frame

namespace MemoryOperand

/-- The number of the base register, the index register and its scale. An index number four means no
index. -/
def readRegisters (m : ModeByte) : Reading (Fin 8 × Option (Fin 8) × Nat) :=
  if m.rm = 4 then do
    let sib := ModeByte.ofByte (← Reading.byte code)
    return (sib.rm, if sib.reg = 4 then .none else some sib.reg, twoTo sib.mode.val)
  else return (m.rm, .none, 1)

def isBaseless (m : ModeByte) (base : Fin 8) : Bool := m.mode = 0 ∧ base = 5

def readDisplacement (m : ModeByte) (base : Fin 8) : Reading Int :=
  if isBaseless m base ∨ m.mode = 2 then Reading.signed32 code
  else if m.mode = 1 then Reading.signed8 code
  else return 0

def read (e : Extent) : Reading MemoryOperand := do
  let (base, index, scale) ← readRegisters code f.modeByte
  let displacement ← readDisplacement code f.modeByte base
  let type ← Reading.typeOf e f.wide
  return ⟨type, f.modifiers.segment?, if isBaseless f.modeByte base then .none else some base, index, scale,
    displacement⟩

def based (type : DataType) (segment : Fin 6) (base : Fin 8) : MemoryOperand :=
  ⟨type, some segment, some base, .none, 1, 0⟩

end MemoryOperand

namespace Slot

/-- The reason why an operand cannot be read. The numbers tell its encoding and its extent. -/
def unreadable (wide : Bool) (mode extent : Nat) : Undecoded :=
  some (.failure (some ("Unable to decode instruction operand for addressing mode " ++ toString mode ++
    ", operand type " ++ toString extent ++ ", and operand size " ++ (if wide then "true" else "false"))))

def registerOrMemory (e : Extent) (r : Fin 8 → Option Register) : Reading Operand := do
  if f.modeByte.mode = 3 then
    let reason := if e = .pointer then some (.failure none) else unreadable f.wide 1 e.code
    return .register (← Reading.orElse reason (r f.modeByte.rm))
  else return .memory (← MemoryOperand.read code f e)

def readImmediate (wide : Bool) : Extent → Reading Operand
  | .byte => do return .immediate (← Reading.signed8 code) .uint8
  | .word => do return .immediate (← Reading.signed16 code) .uint16
  | .sized =>
    if wide then do return .immediate (← Reading.signed32 code) .uint32
    else do return .immediate (← Reading.signed16 code) .uint16
  | e => throw (unreadable wide 2 e.code)

def readRelative (wide : Bool) : Extent → Reading Operand
  | .byte => do return .relative (← Reading.signed8 code)
  | .sized =>
    if wide then do return .relative (← Reading.signed32 code) else do return .relative (← Reading.unsigned16 code)
  | _ => pure (.relative 0)

def readAddress : Reading Int :=
  if f.wideAddress then Reading.signed32 code else Reading.unsigned16 code

def read : Slot → Reading Operand
  | generalOrMemory e => registerOrMemory code f e (fun n => e.register? f.wide n)
  | vectorOrMemory e => registerOrMemory code f e (fun n => some (.xmm n))
  | mediaOrMemory e => registerOrMemory code f e (fun n => some (.mmx n))
  | general e => do return .register (← Reading.orElse (unreadable f.wide 5 e.code) (e.register? f.wide f.modeByte.reg))
  | vector => return .register (.xmm f.modeByte.reg)
  | media => return .register (.mmx f.modeByte.reg)
  | segment => if h : f.modeByte.reg.val < 6 then return .register (.segment ⟨f.modeByte.reg, h⟩)
    else throw (unreadable f.wide 9 Extent.word.code)
  | control => if h : f.modeByte.reg.val < 5 then return .register (.control ⟨f.modeByte.reg, h⟩)
    else throw (unreadable f.wide 14 Extent.double.code)
  | debug => return .register (.word 2)
  | modeRegister => return .register (.dword (Fin.ofNat 8 f.modeByte.mode.val))
  | plainRegister => return .register (.dword f.modeByte.rm)
  | floatTop => return .register (.float 0)
  | floatRegister => return .register (.float f.modeByte.rm)
  | immediate e => readImmediate code f.wide e
  | relative e => readRelative code f.wide e
  | far => do
    let offset ← readAddress code f
    return .absolute (← Reading.unsigned16 code) offset
  | offset e => do
    let displacement ← readAddress code f
    return .memory ⟨← Reading.typeOf e f.wide, f.modifiers.segment?, .none, .none, 1, displacement⟩
  | stringTarget e => do return .memory (.based (← Reading.typeOf e f.wide) 0 7)
  | stringSource e => do return .memory (.based (← Reading.typeOf e f.wide) 3 6)
  | sizedRegister n => return .register (if f.wide then .dword n else .word n)
  | fixed r => return .register r
  | test => throw (unreadable f.wide 16 Extent.double.code)
  | farMemory => throw (unreadable f.wide 17 Extent.pointer.code)

end Slot

variable (m : Modifiers)

namespace Form

def nameFor (f : Form) : String :=
  String.ofList (f.name.toList.flatMap (fun c =>
    if c == 'S' then [if m.data then 'w' else 'l']
    else if c == 'C' then (if m.address then [] else ['e'])
    else [c]))

def readMode (left : ModeByte) (f : Form) : Reading ModeByte :=
  if f.hasMode then do return ModeByte.ofByte (← Reading.byte code) else pure left

end Form

/-- The form of an instruction, what modifies it, and the least number of its bytes. -/
structure Selection where
  form : Form
  modifiers : Modifiers
  least : Nat
  deriving Inhabited

variable (start : Nat)

namespace Opcode

def selectByReg (forms : List (Option Form)) : Reading Form := do
  let m := ModeByte.ofByte (← Reading.peek code)
  Reading.orElse none forms[m.reg.val]?.join

def floatForm (first b : UInt8) : Except Undecoded Form :=
  let m := ModeByte.ofByte b
  let row := first.toNat - 0xd8
  let form? := if b < 0xbf then (OpcodeMap.floatMemory[row]?.bind (·[m.reg.val]?)).join
    else match (OpcodeMap.floatRegisters[row]?.bind (·[m.reg.val]?)).join with
      | some (.form f) => some f
      | some (.group fs) => fs[m.rm.val]?.join
      | _ => none
  if first < 0xd8 ∨ first > 0xdf then .error (some .outsideArray)
  else match form? with
    | some f => .ok f
    | none => .error none

def selectFloat : Reading Form := do
  let b ← Reading.peek code
  floatForm (← Reading.byteAt code start) b

/-- Selects the form of the rest of an instruction that starts at `start`. -/
def select : Opcode → Reading Selection
  | form f => return ⟨f, m, 0⟩
  | group fs => do return ⟨← selectByReg code fs, m, 0⟩
  | coprocessor => do return ⟨← selectFloat code start, m, 2⟩

/-- The meaning of the operation code `0f b`. A byte in front that selects the instruction no longer
modifies it. -/
def selectTwoBytes (b : UInt8) : Option Opcode × Modifiers :=
  let (selected, m') :=
    if m.repeatDifferent then ((OpcodeMap.twoBytesF2.lookup b).join, { m with repeatDifferent := false })
    else if m.repeatEqual then ((OpcodeMap.twoBytesF3.lookup b).join, { m with repeatEqual := false })
    else if m.data then ((OpcodeMap.twoBytes66.lookup b).join, { m with data := false })
    else (none, m)
  match selected with
  | some o => (some o, m')
  | none => (OpcodeMap.twoBytes[b.toNat]?.join, m)

def read : Reading (Opcode × Modifiers) := do
  let b ← Reading.byte code
  if b = 0x0f then do
    let (o, m) := selectTwoBytes m (← Reading.byte code)
    return (← Reading.orElse none o, m)
  else return (← Reading.orElse none OpcodeMap.oneByte[b.toNat]?.join, m)

end Opcode

namespace Modifiers

def read (code : ByteArray) (m : Modifiers) (i : Nat) : Except Undecoded (Modifiers × Nat) :=
  if h : i < code.size then
    match m.add? code[i] with
    | some m => read code m (i + 1)
    | none => .ok (m, i)
  else .error (some .outsideArray)
  termination_by code.size - i

end Modifiers

namespace Selection

def read (code : ByteArray) (start : Nat) : Reading Selection := do
  let m ← Modifiers.read code {}
  let (o, m) ← Opcode.read code m
  o.select code m start

/-- Reads the operands of an instruction that starts at `start`. -/
def readOperands (s : Selection) (b : ModeByte) : Reading Instruction := do
  let operands ← s.form.slots.mapM (Slot.read code ⟨b, s.modifiers⟩)
  return ⟨s.form.nameFor s.modifiers, s.form.kind, operands, max s.least ((← get) - start),
    if s.form.modified then s.modifiers else {}⟩

end Selection

/-- What decoding one instruction leaves to the next: of each form, the mode byte that was read
last. -/
structure Decoders where
  modeBytes : List (Form × ModeByte) := []

namespace Decoders

def left (d : Decoders) (f : Form) : ModeByte := (d.modeBytes.lookup f).getD .none

def leave (d : Decoders) (f : Form) (b : ModeByte) : Decoders :=
  ⟨(f, b) :: d.modeBytes.filter (fun p => !(f == p.1))⟩

/-- The instruction of the code at position `start`, or the reason why there is none, and what it
leaves. The mode byte is left also where reading the operands fails. -/
def read (d : Decoders) (code : ByteArray) (start : Nat) : Except Undecoded Instruction × Decoders :=
  match (Selection.read code start).run start with
  | .error e => (.error e, d)
  | .ok (s, i) =>
    match (s.form.readMode code (d.left s.form)).run i with
    | .error e => (.error e, d)
    | .ok (b, i) =>
      (((s.readOperands code start b).run i).map Prod.fst, if s.form.hasMode then d.leave s.form b else d)

def decodeAt (d : Decoders) (code : ByteArray) (index : Int64) : Option Instruction × Decoders :=
  let start := Word.low32 index
  if start < 0 then (none, d)
  else
    let r := d.read code start.toNat
    (r.1.toOption, r.2)

end Decoders

namespace Instruction

/-- The instruction of the code at position `start`, or the reason why there is none. -/
def read (code : ByteArray) (start : Nat) : Except Undecoded Instruction := (Decoders.read {} code start).1

def decode : Option Instruction := (read code start).toOption

end Instruction

end FlowRecovery.IA32
