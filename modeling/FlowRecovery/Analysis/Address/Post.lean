import FlowRecovery.Analysis.Address.Precision
import FlowRecovery.Analysis.Address.State

/-!
# The effect of statements on tracked states

`Tracked.post` gives the states after a statement, one of which describes what happens. There are
several of them where a choice is made explicit (a conditional value, a variable with few possible
values), and none where the statement cannot be passed. Nothing (`none`) stands for the state that
describes no run.
-/

namespace FlowRecovery

namespace IA32.Instruction

/-- Is memory operand number `n` based on register number `r`? -/
def isBasedOn (i : Instruction) (n : Nat) (r : Fin 8) : Faulty Bool :=
  match i.operands[n]? with
  | some (.memory m) =>
    match m.base with
    | some b => .ok (b == r)
    | none => .error .absent
  | _ => .ok false

def readsString (i : Instruction) : Faulty Bool := i.isBasedOn 1 6

def writesString (i : Instruction) : Faulty Bool := i.isBasedOn 0 7

end IA32.Instruction

namespace Tracked

/-! ### Changes -/

def setVar (v : Var) (a : Based) (t : Tracked) : ProgramM Tracked := do
  return { t with vars := ← t.vars.set (← get).addressSetting v a }

variable (p : Precision)

def assign (v : Var) (a : Based) (t : Tracked) : ProgramM Tracked := do
  t.setVar v (← (p.level v).limit v.width a)

def change (u : Setting Based → Update Based Unit) (t : Tracked) : ProgramM Tracked := do
  match (u (← get).addressSetting).run.run t.memory with
  | (.ok (), memory) => return { t with memory }
  | (.error f, _) => throw f

/-- The state after a write to an address; a write to an unknown address forgets what it may have
changed. -/
def store (address : Based) (width : Int) (a : Based) (t : Tracked) : ProgramM Tracked := do
  if address.isTop then return ← t.change Memory.setTop
  if ← address.isOffsetUnknown then return ← t.change (Memory.setRegionTop · address.region)
  let offset := (← address.number).value
  let a ← (p.cellLevel address.region offset).limit width a
  t.change (Memory.write · address.region offset width a)

def dropTemporaries (t : Tracked) : ProgramM Tracked := do
  let temporaries := (← get).arch.temporaries
  return { t with vars := ⟨t.vars.entries.filter (fun _ entry => !temporaries.contains entry.1)⟩ }

variable (s : Stmt)

/-- The state before a statement changes it: values of temporaries end with the instruction. -/
def enter (t : Tracked) : ProgramM Tracked := do
  match s.label, s.next with
  | _, none => t.dropTemporaries
  | none, some _ => throw .absent
  | some l, some n => if l.address = n.address then return t else t.dropTemporaries

def pass (t : Tracked) : ProgramM (List (Option Tracked)) := do
  match s.label, s.next with
  | some l, some n => return [some (← if l.address = n.address then pure t else t.dropTemporaries)]
  | _, _ => throw .absent

def single (t : ProgramM Tracked) : ProgramM (List (Option Tracked)) := do return [some (← t)]

def distinct (ts : List Tracked) : List (Option Tracked) :=
  (ts.foldl (fun found t => if found.any t.equals then found else found ++ [t]) []).map some

/-! ### Statements -/

def alignsStack (sp v : Var) : Expr → Bool
  | .op .and (.var x :: y :: _) => v.index == sp.index && x.index == sp.index && y.isNumber
  | _ => false

/-- A variable gets one of two values, depending on an unknown condition; a condition that is a
variable is decided. -/
def split (v : Var) (c x y : Expr) (t : Tracked) : ProgramM (List (Option Tracked)) := do
  let decide (b : Based) : ProgramM Tracked :=
    match c with
    | .var flag => t.setVar flag b
    | _ => pure t
  let whenTrue ← decide Based.tt
  let whenFalse ← decide Based.ff
  let whenTrue ← whenTrue.assign p v (← whenTrue.eval x)
  let whenFalse ← whenFalse.assign p v (← whenFalse.eval y)
  return distinct [whenTrue, whenFalse]

/-- A variable gets a value. What lies below a new stack pointer is forgotten. -/
def postAssign (v : Var) (e : Expr) (t : Tracked) : ProgramM (List (Option Tracked)) := do
  let after ← t.enter s
  let undecided? ← match e with
    | .cond c x y => do if (← t.eval c).isTop then pure (some (c, x, y)) else pure none
    | _ => pure none
  match undecided? with
  | some (c, x, y) => after.split p v c x y
  | none =>
    let a ← t.eval e
    let program ← get
    let sp := program.arch.special.stackPointer
    let a ← if alignsStack sp v e then t.vars.get program.addressSetting sp else pure a
    let after ← after.assign p v a
    if !program.options.keepDeadStack && v.index == sp.index && !a.isTop then
      if !(← a.isOffsetUnknown) then
        return [some { after with memory := after.memory.forgetStackBelow (← a.number).value }]
    return [some after]

def postStore (location value : Expr) (t : Tracked) : ProgramM (List (Option Tracked)) := do
  let after ← t.enter s
  let a ← t.eval value
  match location with
  | .mem w address segment _ => single (do after.store p (← t.evalAddress w address segment) w a)
  | _ => throw .wrongKind

/-- A string instruction is repeated an unknown number of times: its pointers lose their offsets. -/
def repeatString (condition : Expr) (t : Tracked) : ProgramM (List (Option Tracked)) := do
  let program ← get
  let special := program.arch.special
  let l ← match s.label with
    | some l => pure l
    | none => throw .absent
  let i ← match ← Program.instructionAt l.address with
    | some i => pure i
    | none => do let _ ← t.enter s; throw .absent
  let after ← t.enter s
  let widen (v : Var) (after : Tracked) : ProgramM Tracked := do
    let old ← t.vars.get (← get).addressSetting v
    after.setVar v ⟨old.region, ← Constant.top Expr.addressWidth⟩
  let after ← if ← i.readsString then widen special.stringSource after else pure after
  let after ← if ← i.writesString then widen special.stringTarget after else pure after
  match condition with
  | .op .equal operands =>
    match operands with
    | .var v :: .num n w :: _ =>
      if v.index ≠ special.loopCounter.index ∨ n ≠ 0 then throw (.violated none)
      single (do after.setVar special.loopCounter (← t.eval (.num n w)))
    | .var v :: _ :: _ => if v.index ≠ special.loopCounter.index then throw (.violated none) else throw .wrongKind
    | _ => throw (.violated none)
  | .op .. => return [some after]
  | _ => throw .wrongKind

def context (t : Tracked) : Faulty Context :=
  t.vars.toList.foldlM (fun c (x, a) => do
    if a.isUnique then c.assign (.var x) (← a.number).toExpr else return c) .empty

/-- Only runs in which the condition holds go on. A condition that compares a variable with a
number, or is a variable or its negation, decides the variable. -/
def postAssume (condition : Expr) (t : Tracked) : ProgramM (List (Option Tracked)) := do
  let truth ← t.eval condition
  if truth.equals Based.ff then return []
  if truth.equals Based.tt then return ← t.pass s
  match ← condition.evaluate (← t.context) with
  | .op .equal (.var v :: .num n w :: _) => single (do (← t.enter s).assign p v (← Based.ofNum ⟨n, w⟩))
  | .op .not (.var v :: _) => single (do (← t.enter s).assign p v Based.ff)
  | .var v => single (do (← t.enter s).assign p v Based.tt)
  | _ => t.pass s

def isCountUnknown (t : Tracked) : ProgramM Bool := do
  let program ← get
  let count ← t.vars.get program.addressSetting program.arch.special.loopCounter
  if count.isTop then return true else count.isOffsetUnknown

def newBlock (name : Option String) (t : Tracked) : Faulty (Region × Tracked) :=
  match name, s.label with
  | some name, _ => .ok (.ofName name, t)
  | none, some l => .ok (.block l (t.allocations.count l), { t with allocations := l :: t.allocations })
  | none, none => .error .absent

def postAlloc (pointer : Expr) (name : Option String) (t : Tracked) :
    ProgramM (List (Option Tracked)) := do
  let (region, after) ← (← t.enter s).newBlock s name
  let a : Based := ⟨region, ← Constant.ofNum (Num.of 0 (← pointer.width))⟩
  match pointer with
  | .var v => single (after.assign p v a)
  | .mem w address segment _ => single (do after.store p (← t.evalAddress w address segment) w a)
  | _ => throw .wrongKind

def postDealloc (pointer : Expr) (t : Tracked) : ProgramM (List (Option Tracked)) := do
  let after ← t.enter s
  let a ← t.eval pointer
  if a.isTop then return [some after]
  if a.region == .global || a.region == .stack then
    throw (.unknownPointer ("Cannot deallocate " ++ a.region.text ++ "!"))
  single (after.change (Memory.setRegionTop · a.region))

/-- The largest value of a variable, read as a natural number; in words of 32 bits, only the low
five bits of the width count. -/
def havocLimit (maximum : Int64) (width : Int) : Int64 :=
  if maximum < 0 then Int64.ofInt (wrap32 (twoTo (width % 32).toNat)) + maximum else maximum

/-- A variable gets any value up to a maximum: one state each, unless there are too many. -/
def postHavoc (v : Var) (maximum : Expr) (t : Tracked) :
    ProgramM (List (Option Tracked)) := do
  match maximum with
  | .num n w =>
    let limit := havocLimit n w
    if limit.toInt > p.thresholdOf v then
      single (do (← t.enter s).assign p v ⟨.global, ← Constant.top v.width⟩)
    else
      let ts ← (List.range (limit.toInt + 1).toNat).mapM (fun n => do
        (← t.enter s).assign p v (← Based.ofNum (Num.of (Int64.ofNat n) v.width)))
      return distinct ts
  | _ => throw (.violated none)

/-- The offsets from `base` on, `step` apart, of which there are `count`. -/
def offsets (base count step : Int64) : List Int64 :=
  let last := base + count * step
  if step ≤ 0 then [] else
    ((List.range ((last - base).toInt / step.toInt + 1).toNat).map (fun n => base + Int64.ofNat n * step)).filter (· < last)

def postMemset (destination value count : Expr) (t : Tracked) :
    ProgramM (List (Option Tracked)) := do
  let after ← t.enter s
  let d ← t.eval destination
  let a ← t.eval value
  let n ← t.eval count
  if n.isUnique && !d.isTop then
    if !(← d.isOffsetUnknown) then
      let step := Int64.ofInt (a.width.tdiv 8)
      return ← single ((offsets (← d.number).value (← n.number).value step).foldlM (fun t o => do
        t.store p ⟨d.region, ← Constant.ofNum (Num.of o d.width)⟩ a.width a) after)
  single (after.change (Memory.setRegionTop · d.region))

def postMemcpy (source destination size : Expr) (t : Tracked) :
    ProgramM (List (Option Tracked)) := do
  let after ← t.enter s
  let a ← t.eval source
  let d ← t.eval destination
  let n ← t.eval size
  if n.isUnique && !d.isTop then
    if !(← d.isOffsetUnknown) then
      let n := (← n.number).value
      let isUnknown ← if a.isTop then pure true else a.isOffsetUnknown
      if isUnknown then
        return ← single ((offsets (← d.number).value n 1).foldlM (fun t o => do
          t.store p ⟨d.region, ← Constant.ofNum (Num.of o d.width)⟩ 8 (← Based.top 8)) after)
      let (from_, into) := ((← a.number).value, (← d.number).value)
      return ← single (after.change (Memory.copy · a.region from_ d.region into n))
  single (after.change (Memory.setRegionTop · d.region))

def postUnknownCall (t : Tracked) : ProgramM (List (Option Tracked)) := do
  let after ← t.enter s
  let program ← get
  let changed := program.arch.scratch.toList program.arch.vars.toList
  let after ← changed.foldlM (fun t v => do t.assign p v (← Based.top v.width)) after
  single (after.change Memory.setTop)

def post (t : Tracked) : ProgramM (List (Option Tracked)) := do
  match s.effect with
  | .assign v e => t.postAssign p s v e
  | .store location value => t.postStore p s location value
  | .assume condition source =>
    if source.jump.kind = .stringLengthCheck then
      if ← t.isCountUnknown then return ← t.repeatString s condition
    t.postAssume p s condition
  | .alloc pointer name => t.postAlloc p s pointer name
  | .dealloc pointer => t.postDealloc s pointer
  | .havoc v maximum => t.postHavoc p s v maximum
  | .memset destination value count => t.postMemset p s destination value count
  | .memcpy source destination size => t.postMemcpy p s source destination size
  | .unknownCall _ => t.postUnknownCall p s
  | .callReturn => return [none]
  | _ => t.pass s

end Tracked

end FlowRecovery
