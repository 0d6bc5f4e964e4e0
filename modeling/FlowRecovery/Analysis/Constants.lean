import FlowRecovery.Domain.State
import FlowRecovery.Program.Initial

/-!
# Constant propagation

A state lists the variables and memory locations that are known to hold a constant. Registers that
share bits are told apart, and so are memory locations that overlap: a write changes only the place
that it names.
-/

namespace FlowRecovery

/-- Places that hold a constant. -/
structure Constants where
  vars : Std.TreeMap Nat (Var × Constant) := {}
  locations : List (Expr × Constant) := []
  dataIsTop : Bool := false

namespace Constants

def initial (arch : Architecture) : Constants :=
  match arch.vars.find? "DF" with
  | some df => { vars := (∅ : Std.TreeMap Nat (Var × Constant)).insert df.index (df, .known .ff) }
  | none => {}

variable (s : Constants)

def isTop : Bool := s.vars.isEmpty && s.locations.isEmpty

/-! ### Places -/

def getVar (v : Var) : Faulty Constant :=
  match s.vars[v.index]? with
  | some (_, c) => .ok c
  | none => Constant.top v.width

def find? (s : Constants) (location : Expr) : Option Constant :=
  (s.locations.find? (fun entry => location.equals entry.1)).map Prod.snd

/-- The constant of a memory location: what was written last, or the initial data of the program. -/
def getLocation (p : Program) (s : Constants) (location : Expr) : Faulty Constant := do
  let w ← location.width
  if s.isTop then return ← Constant.top w
  match s.find? location with
  | some c => return c
  | none =>
    match location with
    | .mem _ (.num a aw) _ _ =>
      match ← p.initialNumber s.dataIsTop (addressOfNumber a aw) w with
      | some n => Constant.ofNum n
      | none => Constant.top w
    | _ => Constant.top w

/-- The state after a write to a variable; unknown values are not listed. -/
def setVar (v : Var) (c : Constant) : Constants :=
  { s with vars := if c.isTop then s.vars.erase v.index else s.vars.insert v.index (v, c) }

def put (location : Expr) (c : Constant) : List (Expr × Constant) → List (Expr × Constant)
  | [] => [(location, c)]
  | (l, d) :: rest => if location.equals l then (l, c) :: rest else (l, d) :: put location c rest

def setLocation (location : Expr) (c : Constant) : Constants :=
  { s with locations :=
      if c.isTop then s.locations.filter (fun entry => !location.equals entry.1) else put location c s.locations }

def clearMemory : Constants := { s with locations := [], dataIsTop := true }

/-! ### Texts in memory -/

def readByte (p : Program) (s : Constants) (a : Int64) : Faulty Constant := do
  s.getLocation p (← Expr.memory 8 (.number a 64) none 0)

def charOf (n : Num) : Char := Char.ofNat (n.low32 % 65536).toNat

/-- The text from an address on up to a zero, unless a byte is unknown. In a wide text every second
byte counts. -/
def readText (p : Program) (s : Constants) (wide : Bool) : Nat → Int64 → Faulty (Option (List Char))
  | 0, _ => .ok none
  | fuel + 1, a => do
    match ← s.readByte p a with
    | .unknown _ => return none
    | .known n =>
      if n.low32 = 0 then return some []
      if wide then
        if (← s.readByte p (a + 1)).isTop then return none
        return (← readText p s wide fuel (a + 2)).map (charOf n :: ·)
      return (← readText p s wide fuel (a + 1)).map (charOf n :: ·)

def textLimit (p : Program) (s : Constants) : Nat :=
  p.images.foldl (fun n i => n + (i.bytes.map ByteArray.size).getD 0) (s.locations.length + 1)

/-! ### Evaluation -/

def need : Option Constant → Faulty Constant
  | some c => .ok c
  | none => .error .absent

def procedureNamed (library name : Num) : ProgramM Constant := do
  let p ← get
  let limit := s.textLimit p
  let short ← match ← s.readText p false limit library.value with
    | none => throw .absent
    | some cs => pure cs
  let libraryName ← if short.length ≤ 1 then s.readText p true limit library.value else pure (some short)
  let procedureName ← s.readText p false limit name.value
  match ← Program.procedureAddress (libraryName.map String.ofList) (procedureName.map String.ofList) with
  | none => throw .absent
  | some a => Constant.ofNum (Num.of a 32)

mutual

/-- The constant that an expression is. A conditional expression whose condition is neither true nor
false has none. -/
def evalPart (s : Constants) : Expr → ProgramM (Option Constant)
  | .num v w => do return some (← Constant.ofNum ⟨v, w⟩)
  | .var v => do
    if s.isTop then return some (← Constant.top v.width)
    return some (← s.getVar v)
  | .nondet w => do return some (← Constant.top w)
  | .op o es => do
    let xs ← evalOperands s es
    match ← (← Expr.operation o xs).evaluate .empty with
    | .num v w => return some (← Constant.ofNum ⟨v, w⟩)
    | _ => return some (← Constant.top (← (Expr.op o es).width))
  | .special name es => do
    if name == "getProcAddress" then
      match es with
      | library :: procedure :: _ =>
        let a ← need (← evalPart s library)
        let b ← need (← evalPart s procedure)
        match a, b with
        | .known l, .known n => return some (← s.procedureNamed l n)
        | _, _ => pure ()
      | _ => throw .outsideArray
    return some (← Constant.top (← (Expr.special name es).width))
  | .bits e first last => do
    let f ← evalPart s first
    let l ← evalPart s last
    let a ← evalPart s e
    let top : Faulty (Option Constant) := do return some (← Constant.top (← (Expr.bits e first last).width))
    match ← need f with
    | .unknown _ => top
    | .known f =>
      match ← need l with
      | .unknown _ => top
      | .known l =>
        match ← need a with
        | .unknown _ => top
        | .known a => return some (← Constant.ofNum (Num.bits f.low32 l.low32 a))
  | .cond c x y => do
    let condition ← need (← evalPart s c)
    let whenTrue ← if (Constant.known .tt).lessOrEqual condition then evalPart s x else pure none
    if (Constant.known .ff).lessOrEqual condition then
      let whenFalse ← evalPart s y
      match whenTrue with
      | none => return whenFalse
      | some a => return some (a.join (← need whenFalse))
    else return whenTrue
  | .mem w a segment _ => do
    match ← need (← evalPart s a) with
    | .unknown _ => return some (← Constant.top w)
    | .known n => return some (← s.getLocation (← get) (← Expr.memory w n.toExpr segment 0))

def evalOperands (s : Constants) : List Expr → ProgramM (List Expr)
  | [] => return []
  | e :: es => do
    let x ← match ← need (← evalPart s e) with
      | .known n => pure n.toExpr
      | .unknown _ => Expr.unspecified (← e.width)
    return x :: (← evalOperands s es)

end

def eval (e : Expr) : ProgramM Constant := do need (← s.evalPart e)

def project (es : List Expr) : ProgramM Projection := do
  return crossProduct ((← es.mapM s.eval).map (fun c => c.concretize.options))

/-! ### Statements -/

/-- The state after a statement; nothing if the statement cannot be passed. -/
def post (stmt : Stmt) (s : Constants) : ProgramM (Option Constants) := do
  match stmt.effect with
  | .assign v e => return some (s.setVar v (← s.eval e))
  | .store (.mem w address segment _) value =>
    let c ← s.evalPart value
    match ← s.eval address with
    | .unknown _ => return some s.clearMemory
    | .known n => return some (s.setLocation (← Expr.memory w n.toExpr segment 0) (← need c))
  | .havoc v _ => return some (s.setVar v (← Constant.top v.width))
  | .assume condition _ =>
    let truth ← s.eval condition
    if truth.equals (.known .ff) then return none
    if truth.equals (.known .tt) then return some s
    match condition with
    | .op .equal (.var v :: .num n w :: _) => return some (s.setVar v (← Constant.ofNum ⟨n, w⟩))
    | _ => return some s
  | .alloc pointer _ =>
    let c ← Constant.top (← pointer.width)
    match pointer with
    | .var v => return some (s.setVar v c)
    | .mem .. => return some (s.setLocation pointer c)
    | _ => throw .wrongKind
  | .unknownCall _ =>
    let arch := (← get).arch
    let changed := arch.scratch.toList arch.vars.toList
    return some (changed.foldl (fun s v => s.setVar v (.unknown v.width)) s).clearMemory
  | _ => return some s

/-! ### Order -/

def join (p : Program) (s t : Constants) : Faulty Constants := do
  if s.isTop then return s
  if t.isTop then return t
  let start : Constants := { dataIsTop := s.dataIsTop || t.dataIsTop }
  let withVars ← s.vars.toList.foldlM (fun r (_, v, c) => do return r.setVar v (c.join (← t.getVar v))) start
  let add (other : Constants) (r : Constants) (entry : Expr × Constant) : Faulty Constants := do
    return r.setLocation entry.1 (entry.2.join (← other.getLocation p entry.1))
  let withMine ← s.locations.foldlM (add t) withVars
  t.locations.foldlM (add s) withMine

def lessOrEqual (p : Program) (s t : Constants) : Faulty Bool := do
  if t.isTop then return true
  if s.isTop then return false
  if s.dataIsTop && !t.dataIsTop then return false
  if ← Memory.allM (fun (_, v, c) => do return (← s.getVar v).lessOrEqual c) t.vars.toList then
    Memory.allM (fun (l, c) => do return (← s.getLocation p l).lessOrEqual c) t.locations
  else return false

def equals (s t : Constants) : Bool :=
  if t.isTop then s.isTop
  else if s.isTop then false
  else s.dataIsTop == t.dataIsTop &&
    s.vars.size == t.vars.size && s.vars.toList.all (fun (i, _, c) =>
      match t.vars[i]? with
      | some (_, d) => c.equals d
      | none => false) &&
    s.locations.length == t.locations.length && s.locations.all (fun (l, c) =>
      match t.find? l with
      | some d => c.equals d
      | none => false)

def placesText (places : List (Expr × Constant)) : String :=
  "\x7b" ++ ", ".intercalate (places.map (fun (e, c) => e.text ++ "=" ++ c.text)) ++ "\x7d"

def text : String :=
  if s.isTop then "TOP"
  else "Var: " ++ placesText (s.vars.toList.map (fun (_, v, c) => (.var v, c))) ++ ", Mem: " ++ placesText s.locations

end Constants

end FlowRecovery
