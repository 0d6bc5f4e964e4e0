import FlowRecovery.IA32.Lifting
import FlowRecovery.Query.Statements

/-!
# Queries about machine code

Bytes are written as texts of hexadecimal digits.
-/

namespace FlowRecovery.Query

def hexDigit? (c : Char) : Option Nat :=
  if '0' ≤ c ∧ c ≤ '9' then some (c.toNat - 48)
  else if 'a' ≤ c ∧ c ≤ 'f' then some (c.toNat - 87)
  else if 'A' ≤ c ∧ c ≤ 'F' then some (c.toNat - 55)
  else none

def decodeHex (digits : List Char) : Answer ByteArray :=
  go digits ByteArray.empty
where
  go : List Char → ByteArray → Answer ByteArray
    | [], bytes => .ok bytes
    | [_], _ => malformed "bad hex"
    | a :: b :: rest, bytes =>
      match hexDigit? a, hexDigit? b with
      | some a, some b => go rest (bytes.push (UInt8.ofNat (16 * a + b)))
      | _, _ => malformed "bad hex"

def decodeBytes (v : Value) : Answer ByteArray := do decodeHex (← v.toText).toList

def encodeRegister? (n : Option (Fin 8)) : Value := .optional (fun n => (IA32.Register.dword n).text) n

def encodeOperand (o : IA32.Operand) : Value :=
  match o with
  | .immediate _ t => .list ["Immediate", o.text, t.name]
  | .register r =>
    let kind := match r with
      | .dword _ => "X86Register"
      | .word _ | .byte _ => "X86RegisterPart"
      | .segment _ => "X86SegmentRegister"
      | .xmm _ => "X86XMMRegister"
      | .mmx _ => "X86MMXRegister"
      | .control _ => "X86ControlRegister"
      | .float _ => "X86FloatRegister"
    .list [kind, o.text]
  | .memory m => .list ["X86MemoryOperand", o.text, m.type.name, encodeRegister? m.base, encodeRegister? m.index,
      .nat m.scale, m.displacement]
  | .absolute .. => .list ["X86AbsoluteAddress", o.text]
  | .relative _ => .list ["X86PCRelativeAddress", o.text]

def instructionKindName : IA32.InstructionKind → String
  | .plain => "X86Instruction"
  | .arithmetic => "X86ArithmeticInstruction"
  | .move => "X86MoveInstruction"
  | .call => "X86CallInstruction"
  | .jump => "X86JmpInstruction"
  | .branch => "X86CondJmpInstruction"
  | .ret => "X86RetInstruction"

def encodeInstruction (pc : Int64) (i : IA32.Instruction) : Value :=
  let branch := if i.isTransfer then
      [("branch", Value.list [(i.kind == .branch : Bool), i.isIndirect, .optional encodeOperand i.destination])]
    else []
  .record ([("asm", (i.text IA32.plainNames pc : Value)), ("size", .nat i.size), ("name", i.name),
    ("kind", instructionKindName i.kind), ("operands", .list (i.operands.map encodeOperand)),
    ("type", DataType.unknown.name)] ++ branch)

/-- Decodes up to `count` instructions one after the other; a failure or the end of the code ends
them. -/
def disassembleFrom (code : ByteArray) (base : Int64) : Nat → IA32.Decoders → Int → List Value
  | 0, _, _ => []
  | count + 1, d, pos =>
    match d.decodeAt code (.ofInt pos) with
    | (none, _) => [.null]
    | (some i, d) => encodeInstruction (base + Int64.ofInt pos) i ::
        (if pos + i.size < code.size then disassembleFrom code base count d (pos + i.size) else [])

def disassembleEach (base : Int64) : IA32.Decoders → List ByteArray → List Value
  | _, [] => []
  | d, code :: codes =>
    .optional (encodeInstruction base) (d.decodeAt code 0).1 :: disassembleEach base (d.decodeAt code 0).2 codes

def disassembly (query : Value) : Answer Value := do
  let base := Int64.ofInt (← query.intField "addr" 0x1000)
  match query.field? "hex" with
  | some hex =>
    let code ← decodeBytes hex
    let pos ← query.intField "pos" 0
    let count ← query.intField "count" 1
    return .list (disassembleFrom code base count.toNat {} pos)
  | none =>
    let codes ← (← query.listField "codes").mapM decodeBytes
    return .list (disassembleEach base {} codes)

def lifting (query : Value) : Answer Value := do
  let address := Int64.ofInt (← query.intField "addr" 0x1000)
  let summarize ← query.boolField "summarize"
  let codes ← (← query.listField "codes").mapM decodeBytes
  let rs ← codes.mapM (fun code => settle (do
    match IA32.Instruction.decode code 0 with
    | none => return .null
    | some i =>
      let ss ← i.lift IA32.architecture summarize address
      return .record [("asm", i.text IA32.plainNames address), ("size", .nat i.size),
        ("rtl", ← encodeStmts noSymbols ss)]))
  return .list rs

end FlowRecovery.Query
