import FlowRecovery.IA32.Architecture
import FlowRecovery.IA32.Code.Decoder

/-!
# The meaning of machine instructions

`Instruction.lift` gives the statements of an instruction at an address: it chooses a template of
the architecture by the name and the operands of the instruction, and instantiates its parameters
with the operands.
-/

namespace FlowRecovery.IA32

/-! ### Operands as expressions -/

variable (regs : Registers)

namespace Register

/-- The variable of a register. Registers that the architecture does not know have numbers after all
others and no width. -/
def variableIn (r : Register) : Var :=
  let name := String.ofList (r.text.toList.dropWhile (· == '%'))
  let extra := match r with
    | mmx n => n.val
    | _ => 8
  (regs.find? name).getD ⟨regs.vars.size + extra, name, unknownWidth⟩

end Register

namespace MemoryOperand

def scaledIndex (m : MemoryOperand) (n : Fin 8) : Faulty Expr := do
  let index := Expr.var ((Register.dword n).variableIn regs)
  if m.scale > 1 then
    return .bits (← Expr.operation .mul [index, .number (Int64.ofNat m.scale) 32]) (.number 0 8) (.number 31 8)
  else return index

def addTo (sum : Option Expr) (e : Expr) : Faulty (Option Expr) :=
  match sum with
  | none => .ok (some e)
  | some s => do return some (← Expr.plus [s, e])

def address (m : MemoryOperand) : Faulty Expr := do
  let base := m.base.map (fun n => Expr.var ((Register.dword n).variableIn regs))
  let sum ← match m.index with
    | none => pure base
    | some n => do addTo base (← m.scaledIndex regs n)
  let displacement := Expr.number (Int64.ofInt m.displacement) 32
  match sum with
  | none => return displacement
  | some s => if m.displacement == 0 then return s else Expr.plus [s, displacement]

def location (m : MemoryOperand) : Faulty Expr := do
  let segment := m.segment.map (fun n => Expr.var ((Register.segment n).variableIn regs))
  Expr.memory m.type.bits (← m.address regs) segment 0

end MemoryOperand

namespace Operand

def toExpr : Operand → Faulty Expr
  | immediate v t => .ok (.number (Int64.ofInt v) t.bits)
  | register r => .ok (.var (r.variableIn regs))
  | memory m => m.location regs
  | absolute _ v => .ok (.number (Int64.ofInt v) 32)
  | relative d => .ok (.number (Int64.ofInt d) 32)

def impliedBy : Operand → Option String
  | register (.dword 0) => some "EAX"
  | register (.word 0) => some "AX"
  | register (.byte 0) => some "AL"
  | register (.segment n) => some (["ES", "CS", "SS", "DS", "FS", "GS"].get n)
  | _ => none

def fit (parameter : String) : Operand → Int
  | register r =>
    if parameter.startsWith "reg" then 4
    else if (match r with | .float _ => parameter == "sti" | _ => false) then 4
    else if parameter == "modrm" then 3
    else 0
  | immediate _ t => if parameter == "i" ++ toString t.bits then 4 else 0
  | memory _ => if parameter == "modrm" || parameter == "mem" then 4 else 0
  | relative _ => if parameter.startsWith "reloc" then 4 else 0
  | absolute .. => 0

end Operand

/-! ### The choice of a template -/

namespace Instruction

def repeatable : List String := ["CMPS", "LODS", "MOVS", "SCAS", "STOS", "INS", "OUTS", "NOP"]

def directives : List (String × String) := [
  ("INCL", "ALLOC"), ("NOTL", "DEALLOC"), ("SUBL", "HAVOC32ULEQ"), ("SUBW", "HAVOC16ULEQ"), ("SUBB", "HAVOC8ULEQ"),
  ("MOVL", "NONDET32"), ("MOVW", "NONDET16"), ("MOVB", "NONDET8"), ("ADDL", "ASSERTGT"), ("CMPL", "ASSERTEQ"),
  ("ADCL", "ASSERTGE")]

def specName (i : Instruction) : String :=
  let name := i.name.toUpper
  let m := i.modifiers
  if !(m.lock && m.repeatEqual) && (m.repeatEqual || m.repeatDifferent) && repeatable.any (fun r => name.startsWith r) then
    (if m.repeatDifferent then "REPNE" else "") ++ (if m.repeatEqual then "REP" else "") ++ name
  else name

variable (arch : Architecture)

def directive? (i : Instruction) : Option Template :=
  if i.modifiers.lock && i.modifiers.repeatEqual then
    (directives.lookup i.name.toUpper).bind (fun n => arch.directives.find? (·.name == n))
  else none

def operandScore (t : Template) (count : Nat) (o : Operand) (n : Nat) : Int :=
  let implied := match o.impliedBy with
    | some ending =>
      if t.name.endsWith ending then 5 + (if count == t.parameters.length + 1 then 100 else 0) else 0
    | none => 0
  implied + (match t.parameters[n]? with
    | some p => o.fit p.name
    | none => 0)

def score (summarize : Bool) (i : Instruction) (t : Template) : Int :=
  (if i.operands.length == t.parameters.length then 100 else 0) +
    (if summarize && t.name.startsWith "REP" && t.name.endsWith "SUMMARY" then 1 else 0) +
    i.operands.zipIdx.foldl (fun total (o, n) => total + operandScore t i.operands.length o n) 0

def best (score : Template → Int) (ts : List Template) : Option Template :=
  (ts.foldl (fun (acc : Option Template × Int) t =>
    if score t > acc.2 then (some t, score t) else acc) (none, -1)).1

/-- The template of an instruction: the one of its name, or the best of a group of that name. -/
def template? (summarize : Bool) (i : Instruction) : Option Template :=
  match i.directive? arch with
  | some t => some t
  | none =>
    let name := i.specName
    match arch.group? name with
    | none => arch.named? name
    | some [t] => (arch.named? name).or (some t)
    | some ts => best (i.score summarize) ts

/-! ### Instantiation -/

/-- The parameters of a template with the operands that stand for them. An operand too many is the
first one. -/
def bindings (i : Instruction) (t : Template) : Faulty (List (Var × Expr)) :=
  if i.operands.length < t.parameters.length then
    .error (.failure (some "Too few operands in ASM instruction for SSL template"))
  else
    let operands := if i.operands.length > t.parameters.length then i.operands.drop 1 else i.operands
    (t.parameters.zip operands).mapM (fun (p, o) => do return (p, ← o.toExpr regs))

/-- Places statements one after the other at an address; the last one leads to `next`. -/
def place (address next : Int64) (ss : List Stmt) : List Stmt :=
  ss.zipIdx.map (fun (s, n) =>
    let following : Label := if n + 1 = ss.length then ⟨next, 0⟩ else ⟨address, n + 1⟩
    { s.placeAt ⟨address, n⟩ with next := some following })

/-- The widths of all statements. A mismatch makes the whole instruction ill-typed. -/
def inferAll (ss : List Stmt) : Faulty (List Stmt) :=
  match ss.mapM Stmt.inferTypes with
  | .error (.typeMismatch detail) => .error (.illTyped detail)
  | r => r

def evaluated (ss : List Stmt) : Faulty (List Stmt) := do
  let ss ← (Sequence.evaluate .empty ss).result
  if ss.isEmpty then throw .absent
  return ss

def lift (summarize : Bool) (address : Int64) (i : Instruction) : Faulty (List Stmt) := do
  let template := i.template? arch summarize
  let pairs ← match template with
    | none => pure []
    | some t => i.bindings arch.vars t
  let next := address + Int64.ofNat i.size
  let context ← pairs.foldlM (fun (c : Context) (v, e) => c.substitute (.var v) e) .empty
  let pc := arch.special.pc
  let context ← context.assign (.var pc) (.number next pc.width)
  let body := (template.bind (·.body)).getD [.ofEffect .skip]
  let body ← (Sequence.evaluate context body).result
  let body := if body.isEmpty then [.ofEffect .skip] else body
  let body ← inferAll (place address next body) >>= evaluated
  let body ← (Sequence.normalize body).result
  evaluated body

end Instruction

end FlowRecovery.IA32
