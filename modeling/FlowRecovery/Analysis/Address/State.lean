import FlowRecovery.Domain.State
import FlowRecovery.Program.Initial

/-!
# Tracked states

A tracked state gives addresses to variables and memory: offsets into regions, where global memory
stands for plain numbers. It also remembers where memory was allocated on the way, so that the
blocks of one allocation are told apart.

Expressions are evaluated to one address (`Tracked.eval`). Some named operations look into the
program: the address of a procedure by its name, and the arguments of an output procedure.
-/

namespace FlowRecovery

/-- Addresses of variables and memory, on one path through a program. -/
structure Tracked where
  vars : Valuation Based := {}
  memory : Memory Based := {}
  allocations : List Label := []

def Program.addressSetting (p : Program) : Setting Based := { p.surroundings with factory := Based.factory }

namespace Tracked

/-! ### Order -/

def isTop (t : Tracked) : Bool := t.vars.isTop && t.memory.isTop

def equals (t u : Tracked) : Bool := t.vars.equals u.vars && t.memory.equals u.memory

/-- An upper bound; the allocations of the first state are kept. -/
def join (s : Setting Based) (t u : Tracked) : Faulty Tracked := do
  if t.isTop then return t
  if u.isTop then return u
  return { vars := ← t.vars.join s u.vars, memory := ← t.memory.join s u.memory, allocations := t.allocations }

def lessOrEqual (s : Setting Based) (t u : Tracked) : Faulty Bool := do
  if u.isTop then return true
  if t.isTop then return false
  if ← t.vars.lessOrEqual s u.vars then t.memory.lessOrEqual s u.memory else return false

def text (t : Tracked) : Faulty String := do
  if t.isTop then return "TOP"
  return "BAT: Var=" ++ (← t.vars.text) ++ "," ++ (← t.memory.text)

/-! ### Texts in memory -/

def charOf (n : Num) : Char := Char.ofNat (n.low32 % 65536).toNat

/-- The text from an offset on up to a zero, unless a byte is unknown. -/
def readText (s : Setting Based) (t : Tracked) (region : Region) : Nat → Int64 → Faulty (Option (List Char))
  | 0, _ => .ok none
  | fuel + 1, offset => do
    let v ← t.memory.read s region offset 8
    if v.isTop then return none
    let n ← v.number
    if n.low32 = 0 then return some []
    return (← readText s t region fuel (offset + 1)).map (charOf n :: ·)

def readWideText (s : Setting Based) (t : Tracked) (region : Region) : Nat → Int64 → Faulty (Option (List Char))
  | 0, _ => .ok none
  | fuel + 1, offset => do
    let v ← t.memory.read s region offset 8
    if v.isTop then return none
    let n ← v.number
    if n.low32 = 0 then return some []
    let high ← t.memory.read s region (offset + 1) 8
    if high.isTop then return none
    let _ ← high.number
    return (← readWideText s t region fuel (offset + 2)).map (charOf n :: ·)

def textLimit (p : Program) (t : Tracked) : Nat :=
  p.images.foldl (fun n i => n + (i.bytes.map ByteArray.size).getD 0) (t.memory.cells.size + 1)

/-! ### Evaluation -/

/-- How an expression is evaluated. A conditional expression whose condition is neither true nor
false has no value. -/
structure Evaluation where
  run : ProgramM (Option Based)
  negated : Option (ProgramM (Option Based)) := none

def need : Option Based → Faulty Based
  | some a => .ok a
  | none => .error .absent

def needAt (vs : List (Option Based)) (n : Nat) : Faulty Based :=
  match vs[n]? with
  | some v => need v
  | none => .error .outsideArray

def checkWidth (e : Expr) (v : Option Based) : Faulty Based := do
  let a ← need v
  if a.width ≠ (← e.width) then
    throw (.violated (some ("Bitwidth changed during evaluation of " ++ e.text ++ " to " ++ a.text)))
  return a

/-- What memory holds at an address; at an unknown address this is unknown. -/
def readAt (s : Setting Based) (t : Tracked) (address : Based) (width : Int) : Faulty Based := do
  if address.isTop then return ← Based.top width
  if ← address.isOffsetUnknown then return ← Based.top width
  t.memory.read s address.region (← address.number).value width

def inSegment (width addressWidth : Int) (address : Based) (segment : ProgramM Based) : ProgramM Based := do
  if address.region ≠ .global then return ← Based.top width
  let base ← segment
  if base.isTop then return ← Based.top addressWidth
  if ← base.isOffsetUnknown then return ← Based.top addressWidth
  if (← base.number).low32 ≠ 0 then return ← Based.top addressWidth
  return ⟨base.region, ← Constant.ofNum (← address.number)⟩

/-- The truth value of a comparison. A pointer is never zero; offsets into one region are compared.
-/
def compare (o : Operator) (vs : List (Option Based)) : Faulty Based := do
  let isZero (a : Based) : Faulty Bool := do if a.isUnique then return (← a.number).low32 == 0 else return false
  let isPointer (a : Based) : Bool := !a.isTop && !a.isUnbased
  let a ← needAt vs 0
  if o = .equal then
    if isPointer a then
      if ← isZero (← needAt vs 1) then return Based.ff
    if isPointer (← needAt vs 1) then
      if ← isZero a then return Based.ff
  if !a.isTop then
    let b ← needAt vs 1
    if a.region = b.region then
      if !(← a.isOffsetUnknown) then
        if !(← b.isOffsetUnknown) then
          let r ← (← Expr.operation o [(← a.number).toExpr, (← b.number).toExpr]).evaluate .empty
          if r.equals .tt then return Based.tt
          if r.equals .ff then return Based.ff
  Based.top 1

/-- The operands of an operation as numbers in one region. A sum may have one pointer; subtracting a
pointer into the same region makes it a number. Nothing is returned if the operation has an unknown
value. -/
def commonRegion (o : Operator) : Region → List (Expr × Evaluation) → List (Option Based) →
    ProgramM (Option (Region × List Expr))
  | region, (e, evaluation) :: rest, v :: vs => do
    if region = .top then
      throw (.violated (some "Temporary region cannot become TOP during arithmetic evaluation."))
    let a ← need v
    if a.isTop then return none
    let unspecified : Faulty Expr := do Expr.unspecified (← e.width)
    let offset (b : Based) : Faulty Expr := do
      if ← b.isOffsetUnknown then unspecified else return (← b.number).toExpr
    let goOn (region : Region) (x : Expr) : ProgramM (Option (Region × List Expr)) := do
      return (← commonRegion o region rest vs).map (fun (r, xs) => (r, x :: xs))
    if a.region ≠ .global then
      if o = .plus then
        if region = .global then goOn a.region (← offset a) else return none
      else goOn region (← unspecified)
    else if !(← a.isOffsetUnknown) then goOn region (← offset a)
    else
      match o, evaluation.negated with
      | .plus, some negated =>
        let b ← need (← negated)
        if b.region = region then goOn .global (← offset b) else goOn region (← unspecified)
      | _, _ => goOn region (← unspecified)
  | region, _, _ => return some (region, [])

def operate (o : Operator) (e : Expr) (operands : List (Expr × Evaluation)) : ProgramM (Option Based) := do
  let vs ← operands.mapM (fun p => p.2.run)
  match o with
  | .equal | .unsignedLess | .unsignedLessOrEqual | .less | .lessOrEqual => return some (← compare o vs)
  | _ =>
    match ← commonRegion o .global operands vs with
    | none => return some (← Based.top (← e.width))
    | some (region, xs) =>
      match ← (← Expr.operation o xs).evaluate .empty with
      | .num v w => return some ⟨region, ← Constant.ofNum ⟨v, w⟩⟩
      | _ => return some ⟨region, ← Constant.top (← e.width)⟩

def procedureNamed (s : Setting Based) (t : Tracked) (library name : Based) : ProgramM Based := do
  let limit := textLimit (← get) t
  let libraryAt := (← library.number).value
  let short ← match ← readText s t .global limit libraryAt with
    | none => throw .absent
    | some cs => pure cs
  let libraryName ← if short.length ≤ 1 then readWideText s t .global limit libraryAt else pure (some short)
  let procedureName ← readText s t .global limit (← name.number).value
  match ← Program.procedureAddress (libraryName.map String.ofList) (procedureName.map String.ofList) with
  | none => throw .absent
  | some a => Based.ofNum (Num.of a 32)

/-- Looks at the arguments of an output procedure, one for each percent sign of its format; counts
those that are known exactly. `skipped` is the number of characters before the first that has not
been copied yet. -/
def printArguments (s : Setting Based) (t : Tracked) (first : Based) (limit : Nat) :
    (position copied count : Nat) → List Char → ProgramM Unit
  | position, copied, count, '%' :: cs => do
    if copied > position then throw .outsideText
    let count := count + 1
    let argument ← readAt s t
      ⟨first.region, ← Constant.ofNum (Num.of ((← first.number).value + Int64.ofNat (count * 4)) 32)⟩ 32
    match cs with
    | [] => throw .outsideText
    | 'i' :: _ =>
      if argument.isUnique then
        modify (fun p => { p with findings.knownArguments := p.findings.knownArguments + 1 })
      else modify (fun p => { p with findings.unknownArguments := p.findings.unknownArguments + 1 })
    | 's' :: _ =>
      let text ← readAt s t argument 32
      if !text.isTop then
        if !(← text.isOffsetUnknown) then
          let _ ← readText s t text.region limit (← text.number).value
    | _ => pure ()
    printArguments s t first limit (position + 1) (position + 2) count cs
  | position, copied, count, _ :: cs => printArguments s t first limit (position + 1) copied count cs
  | _, _, _, [] => pure ()

def special (s : Setting Based) (t : Tracked) (name : String) (e : Expr) (operands : List (Expr × Evaluation)) :
    ProgramM (Option Based) := do
  let operand (n : Nat) : ProgramM Based := do
    match operands[n]? with
    | none => throw .outsideArray
    | some (_, evaluation) => need (← evaluation.run)
  if name == "getProcAddress" then
    let library ← operand 0
    let procedure ← operand 1
    if library.isUnique && procedure.isUnique then return some (← procedureNamed s t library procedure)
  else if name == "dbgPrintf" then
    let first ← operand 0
    let format ← readAt s t first 32
    if format.region ≠ .top then
      if !(← format.isOffsetUnknown) then
        let limit := textLimit (← get) t
        match ← readText s t format.region limit (← format.number).value with
        | none => throw .absent
        | some cs => printArguments s t first limit 0 0 0 cs
        return some (← Based.ofNum (← first.number))
  return some (← Based.top (← e.width))

mutual

def evaluation (s : Setting Based) (t : Tracked) : Expr → Evaluation
  | .num v w => { run := do return some (← Based.ofNum ⟨v, w⟩) }
  | .var x => { run := do return some (← t.vars.get s x) }
  | .nondet w => { run := do return some (← Based.top w) }
  | .op o es =>
    let operands := evaluations s t es
    { run := operate o (.op o es) operands
      negated := if o = .neg then operands.head?.map (fun p => p.2.run) else none }
  | .special name es => { run := special s t name (.special name es) (evaluations s t es) }
  | .bits e first last => { run := do
      let f ← (evaluation s t first).run
      let l ← (evaluation s t last).run
      let a ← (evaluation s t e).run
      let top : Faulty (Option Based) := do return some (← Based.top (← (Expr.bits e first last).width))
      let f ← need f
      if !f.isUnique then return ← top
      let l ← need l
      if !l.isUnique then return ← top
      let a ← need a
      if !a.isUnique then return ← top
      return some (← Based.ofNum (Num.bits (← f.number).low32 (← l.number).low32 (← a.number))) }
  | .cond c x y => { run := do
      let condition ← need (← (evaluation s t c).run)
      let whenTrue ← if Based.tt.lessOrEqual condition then (evaluation s t x).run else pure none
      if Based.ff.lessOrEqual condition then
        let whenFalse ← (evaluation s t y).run
        match whenTrue with
        | none => return whenFalse
        | some a => return some (← a.join (← need whenFalse))
      else return whenTrue }
  | .mem w a none _ => { run := do
      let address ← checkWidth a (← (evaluation s t a).run)
      return some (← readAt s t address w) }
  | .mem w a (some g) _ => { run := do
      let address ← checkWidth a (← (evaluation s t a).run)
      let segment : ProgramM Based := do checkWidth g (← (evaluation s t g).run)
      return some (← readAt s t (← inSegment w (← a.width) address segment) w) }

def evaluations (s : Setting Based) (t : Tracked) : List Expr → List (Expr × Evaluation)
  | [] => []
  | e :: es => (e, evaluation s t e) :: evaluations s t es

end

def eval (t : Tracked) (e : Expr) : ProgramM Based := do
  checkWidth e (← (evaluation (← get).addressSetting t e).run)

def evalAddress (t : Tracked) (width : Int) (address : Expr) (segment : Option Expr) : ProgramM Based := do
  let a ← t.eval address
  match segment with
  | none => return a
  | some g => inSegment width (← address.width) a (t.eval g)

def project (t : Tracked) (es : List Expr) : ProgramM Projection := do
  return crossProduct ((← es.mapM t.eval).map (fun a => a.concretize.options))

end Tracked

end FlowRecovery
