import FlowRecovery.Domain.Access
import FlowRecovery.Domain.Valuation

/-!
# Abstract machine states

A machine state gives values to variables and memory. Expressions are evaluated to lists of abstract
values, one of which describes the concrete value (`evalAll`), or to their join (`eval`).
-/

namespace FlowRecovery

/-- Abstract values of variables and memory. -/
structure MachineState (A : Type) where
  vars : Valuation A := {}
  memory : Memory A := {}

def crossProduct {α : Type} : List (List α) → List (List α)
  | [] => [[]]
  | as :: rest => as.flatMap (fun a => (crossProduct rest).map (a :: ·))

namespace MachineState

variable {A : Type} [AddressValue A]

open AbstractValue AddressValue

def operate (s : Setting A) (o : Operator) (width : Int) (operands : List Expr) (values : List A) : Faulty A :=
  let extension (extend : Int → Int → A → Faulty A) : Faulty A :=
    match operands, values with
    | .num first _ :: .num last _ :: _, _ :: _ :: a :: _ => extend (Word.low32 first) (Word.low32 last) a
    | _, _ => .error .wrongKind
  match o, values with
  | .plus, a :: as => as.foldlM (fun r b => plus b r) a
  | .mul, a :: as => as.foldlM (fun r b => times b r) a
  | .equal, a :: b :: _ => do
    if (← isUnique a) && (← isUnique b) then
      return if (← concretize a) = (← concretize b) then s.factory.tt else s.factory.ff
    s.factory.top width
  | .plus, [] | .mul, [] | .equal, _ => .error .outsideArray
  | .signExtend, _ => extension signExtend
  | .zeroFill, _ => extension zeroFill
  | _, _ => s.factory.top width

mutual

def evalAll (s : Setting A) (m : MachineState A) : Expr → Faulty (List A)
  | .num v w => do return [← s.factory.single ⟨v, w⟩]
  | .var x => do return [← m.vars.get s x]
  | .op o es => do
    let sets ← evalEach s m es
    let w ← (Expr.op o es).width
    (crossProduct sets).foldlM (fun found values => do return insert found (← operate s o w es values)) []
  | .bits e first last => do
    let f ← joinAll (← evalAll s m first)
    let l ← joinAll (← evalAll s m last)
    if (← isUnique f) && (← isUnique l) then
      (← evalAll s m e).foldlM (fun found a => do
        match ← concretize f, ← concretize l with
        | .listed (f :: _), .listed (l :: _) => return insert found (← bits f.low32 l.low32 a)
        | _, _ => throw .absent) []
    else return [← s.factory.top (← (Expr.bits e first last).width)]
  | .cond _ t f => do return insertAll (← evalAll s m t) (← evalAll s m f)
  | .mem w a _ _ => do
    (← evalAll s m a).foldlM (fun found address => do
      return insertAll found (← readStoreAll s m.memory w address)) []
  | .nondet w => do return [← s.factory.top w]
  | .special name es => do return [← s.factory.top (← (Expr.special name es).width)]

def evalEach (s : Setting A) (m : MachineState A) : List Expr → Faulty (List (List A))
  | [] => .ok []
  | e :: es => do return (← evalAll s m e) :: (← evalEach s m es)

end

def eval (s : Setting A) (m : MachineState A) (e : Expr) : Faulty A := do joinAll (← evalAll s m e)

/-! ### Changes -/

def setVar (s : Setting A) (m : MachineState A) (x : Var) (a : A) : Faulty (MachineState A) := do
  return { m with vars := ← m.vars.set s x a }

def update (m : MachineState A) (u : Update A Unit) : MachineState A × Faulty Unit :=
  let (r, memory) := u.run.run m.memory
  ({ m with memory }, r)

/-! ### Order -/

def isTop (m : MachineState A) : Bool := m.vars.isTop && m.memory.isTop

def join (s : Setting A) (m n : MachineState A) : Faulty (MachineState A) := do
  if m.isTop then return m
  if n.isTop then return n
  return { vars := ← m.vars.join s n.vars, memory := ← m.memory.join s n.memory }

def lessOrEqual (s : Setting A) (m n : MachineState A) : Faulty Bool := do
  if n.isTop then return true
  if m.isTop then return false
  if ← m.vars.lessOrEqual s n.vars then m.memory.lessOrEqual s n.memory else return false

def equals (m n : MachineState A) : Bool := m.memory.equals n.memory && m.vars.equals n.vars

/-! ### Concrete values -/

/-- The numbers that an expression may have. One bit that is unknown is true or false. -/
def numbersOf (s : Setting A) (m : MachineState A) (e : Expr) : Faulty Numbers := do
  go (← evalAll s m e) []
where
  go : List A → List Num → Faulty Numbers
    | [], ns => .ok (.listed ns)
    | a :: as, ns => do
      match ← concretize a with
      | .listed ms => go as (ms.foldl Numbers.insert ns)
      | .all => if (← e.width) = 1 then go as ([Num.tt, Num.ff].foldl Numbers.insert ns) else return .all

def text (m : MachineState A) : Faulty String := do
  return "I: " ++ (← m.vars.text) ++ " Mem:" ++ (← m.memory.text)

end MachineState

abbrev Projection := List (List (Option Num))

def Numbers.options : Numbers → List (Option Num)
  | .all => [none]
  | .listed ns => ns.map some

def MachineState.project {A : Type} [AddressValue A] (s : Setting A) (m : MachineState A) (es : List Expr) :
    Faulty Projection := do
  return crossProduct ((← es.mapM (m.numbersOf s)).map Numbers.options)

end FlowRecovery
