import FlowRecovery.Domain.State
import FlowRecovery.Program.Initial

/-!
# Analyses of single values

Two analyses give every place an abstract value of its own: bounded sets of addresses, and strided
intervals. Both evaluate assignments alike; they differ in what they learn from conditions and in
how they merge states. Blocks of memory that the same statement allocates are not told apart.
-/

namespace FlowRecovery

namespace MachineState

variable {A : Type} [AddressValue A]

def storeAt (s : Setting A) (m : MachineState A) (address : A) (width : Int) (a : A) : Faulty (MachineState A) :=
  match m.update (AddressValue.writeStore s width address a) with
  | (m, .ok ()) => .ok m
  | (_, .error f) => .error f

def write (s : Setting A) (m : MachineState A) (place : Expr) (a : A) : Faulty (MachineState A) := do
  match place with
  | .var v => m.setVar s v a
  | .mem w address _ _ => m.storeAt s (← m.eval s address) w a
  | _ => throw .wrongKind

def blockRegion (stmt : Stmt) (name : Option String) : Faulty Region :=
  match name, stmt.label with
  | some n, _ => .ok (.ofName n)
  | none, some l => .ok (.site l)
  | none, none => .error .absent

def assign (s : Setting A) (m : MachineState A) (place value : Expr) : Faulty (MachineState A) := do
  m.write s place (← m.eval s value)

end MachineState

/-! ### Bounded sets -/

namespace KSet

def setting (p : Program) : Setting KSet := { p.surroundings with factory := KSet.factory p.options.valueThreshold }

/-- The state after a statement. A condition of the form *place = value* gives the place that value.
-/
def post (s : Setting KSet) (stmt : Stmt) (m : MachineState KSet) : Faulty (MachineState KSet) := do
  match stmt.effect with
  | .assign v e => m.assign s (.var v) e
  | .store location e => m.assign s location e
  | .assume (.op .equal (place :: value :: _)) _ =>
    let a ← m.eval s value
    match place with
    | .var _ | .mem .. => m.write s place a
    | _ => return m
  | .alloc pointer name =>
    let region ← MachineState.blockRegion stmt name
    m.write s pointer (.single s.options.valueThreshold ⟨region, ← Constant.ofNum (Num.of 0 32)⟩)
  | _ => return m

end KSet

/-! ### Intervals -/

namespace Interval

def setting (p : Program) : Setting Interval := { p.surroundings with factory := Interval.factory }

def alignsStack (sp v : Var) : Expr → Bool
  | .op .and (.var x :: y :: _) => v.index == sp.index && x.index == sp.index && y.isNumber
  | _ => false

variable (s : Setting Interval)

/-- The state after a condition of the form *a ≤ b*, read without signs: a small place gets the
numbers up to `b`. -/
def limit (a b : Expr) (m : MachineState Interval) : Faulty (MachineState Interval) := do
  let left ← m.eval s a
  let right ← m.eval s b
  if right.left < 0 then return m
  let upTo ← Interval.make right.region 0 right.right 1 left.width
  if !(upTo.size < left.size) then return m
  match a with
  | .var v => m.setVar s v upTo
  | .mem w address _ _ => m.storeAt s (← m.eval s address) w upTo
  | _ => return m

def post (arch : Architecture) (s : Setting Interval) (stmt : Stmt) (m : MachineState Interval) :
    Faulty (MachineState Interval) := do
  match stmt.effect with
  | .assign v e =>
    let a ← m.eval s e
    let sp := arch.special.stackPointer
    m.setVar s v (← if alignsStack sp v e then m.vars.get s sp else pure a)
  | .store (.mem w address _ _) e =>
    let a ← m.eval s e
    m.storeAt s (← m.eval s address) w a
  | .assume (.op .unsignedLessOrEqual (a :: b :: _)) _ => limit s a b m
  | .alloc pointer name =>
    let region ← MachineState.blockRegion stmt name
    m.write s pointer (Interval.point region (Num.of 0 32))
  | .havoc v maximum =>
    match maximum with
    | .num n _ => m.setVar s v (← Interval.make .global 0 n 1 v.width)
    | _ => throw .wrongKind
  | .unknownCall _ =>
    let changed := arch.scratch.toList arch.vars.toList
    let m ← changed.foldlM (fun m v => do m.setVar s v (← Interval.top v.width)) m
    m.storeAt s (← Interval.top Expr.addressWidth) 32 (← Interval.top 32)
  | _ => return m

/-- Widens a state towards an earlier one: places of the state keep their values, moved towards the
earlier ones. -/
def merge (towards m : MachineState Interval) : Faulty (MachineState Interval) := do
  if m.isTop then return m
  if towards.isTop then return towards
  let widened ← m.vars.toList.foldlM (fun (r : MachineState Interval) (v, a) => do
    r.setVar s v (← a.widen (← towards.vars.get s v))) {}
  m.memory.allHeads.foldlM (fun (r : MachineState Interval) (region, cell) => do
    let width := cell.contents.width
    let a ← cell.contents.widen (← towards.memory.read s region cell.offset width)
    match r.update (Memory.write s region cell.offset width a) with
    | (r, .ok ()) => return r
    | (_, .error f) => throw f) widened

def strengthen (known : List (Var × Based)) (m : MachineState Interval) :
    Faulty (MachineState Interval) :=
  known.foldlM (fun r (v, b) => do
    if b.isTop then return r
    if ← b.isOffsetUnknown then return r
    if ← (← m.vars.get s v).isTop then r.setVar s v (Interval.point b.region (← b.number)) else return r) m

end Interval

end FlowRecovery
