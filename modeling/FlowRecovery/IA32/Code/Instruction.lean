import FlowRecovery.IA32.Code.Operand

/-!
# Machine instructions

A decoded instruction: its name, its kind, its operands, the number of its bytes and the bytes in
front of the operation code that modify it.
-/

namespace FlowRecovery.IA32

/-- What bytes in front of an operation code ask for. -/
structure Modifiers where
  repeatEqual : Bool := false
  repeatDifferent : Bool := false
  lock : Bool := false
  cs : Bool := false
  ss : Bool := false
  ds : Bool := false
  es : Bool := false
  fs : Bool := false
  gs : Bool := false
  data : Bool := false
  address : Bool := false
  deriving DecidableEq, Inhabited

namespace Modifiers

def add? (m : Modifiers) (b : UInt8) : Option Modifiers :=
  if b == 0xf3 then some { m with repeatEqual := true }
  else if b == 0xf2 then some { m with repeatDifferent := true }
  else if b == 0xf0 then some { m with lock := true }
  else if b == 0x2e then some { m with cs := true }
  else if b == 0x36 then some { m with ss := true }
  else if b == 0x3e then some { m with ds := true }
  else if b == 0x26 then some { m with es := true }
  else if b == 0x64 then some { m with fs := true }
  else if b == 0x65 then some { m with gs := true }
  else if b == 0x66 then some { m with data := true }
  else if b == 0x67 then some { m with address := true }
  else none

def segment? (m : Modifiers) : Option (Fin 6) :=
  if m.gs then some 5
  else if m.ss then some 2
  else if m.fs then some 4
  else if m.es then some 0
  else if m.ds then some 3
  else if m.cs then some 1
  else none

def text (m : Modifiers) : String :=
  (if m.repeatEqual then "repz " else "") ++ (if m.repeatDifferent then "repnz " else "") ++
    (if m.lock then "lock " else "")

end Modifiers

/-- The kinds of instructions. -/
inductive InstructionKind where
  | plain | arithmetic | move | call | jump | branch | ret
  deriving DecidableEq, Inhabited

/-- A machine instruction. -/
structure Instruction where
  name : String
  kind : InstructionKind
  operands : List Operand
  size : Nat
  modifiers : Modifiers
  deriving DecidableEq

namespace Instruction

def text (names : AddressNames) (pc : Int64) (i : Instruction) : String :=
  i.modifiers.text ++ i.name ++
    (match i.kind, i.operands with
    | .ret, [] => ""
    | .ret, o :: _ => "\t" ++ o.text
    | _, os => "\t" ++ ", ".intercalate (os.reverse.map (Operand.textAt names pc i.size)))

def isTransfer (i : Instruction) : Bool :=
  match i.kind with
  | .call | .jump | .branch | .ret => true
  | _ => false

def destination (i : Instruction) : Option Operand :=
  match i.kind with
  | .call | .jump | .branch => i.operands.head?
  | _ => none

def isIndirect (i : Instruction) : Bool :=
  match i.kind with
  | .call | .jump => !((i.destination.map Operand.isCodeAddress).getD false)
  | _ => false

end Instruction

end FlowRecovery.IA32
