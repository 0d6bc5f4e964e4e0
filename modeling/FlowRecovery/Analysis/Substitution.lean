import FlowRecovery.Domain.State
import FlowRecovery.Spec.Architecture

/-!
# Forward substitution

A state lists places together with expressions that have the same value. These expressions are put
into statements before other analyses see them.
-/

namespace FlowRecovery

/-- Places and expressions of the same value. -/
structure Substitution where
  pairs : List (Expr × Expr) := []

namespace Substitution

def find? (pairs : List (Expr × Expr)) (place : Expr) : Option Expr :=
  (pairs.find? (fun entry => place.equals entry.1)).map Prod.snd

def put (place e : Expr) : List (Expr × Expr) → List (Expr × Expr)
  | [] => [(place, e)]
  | (p, d) :: rest => if place.equals p then (p, e) :: rest else (p, d) :: put place e rest

def erase (place : Expr) (pairs : List (Expr × Expr)) : List (Expr × Expr) :=
  pairs.filter (fun entry => !place.equals entry.1)

/-! ### Evaluation -/

mutual

def expand (pairs : List (Expr × Expr)) : Expr → Faulty Expr
  | .num v w => .ok (.num v w)
  | .nondet w => .ok (.nondet w)
  | .var v => .ok ((find? pairs (.var v)).getD (.var v))
  | .op o es => do (← Expr.operation o (← expandAll pairs es)).evaluate .empty
  | .special name es => do Expr.named name (← expandAll pairs es)
  | .bits e first last => do
    let f ← expand pairs first
    let l ← expand pairs last
    return .bits (← expand pairs e) f l
  | .cond c x y => do
    let c ← expand pairs c
    let x ← expand pairs x
    return Expr.conditional c x (← expand pairs y)
  | .mem w a segment _ => do
    let location ← Expr.memory w (← expand pairs a) segment 0
    return (find? pairs location).getD location

def expandAll (pairs : List (Expr × Expr)) : List Expr → Faulty (List Expr)
  | [] => .ok []
  | e :: es => do
    let x ← expand pairs e
    return x :: (← expandAll pairs es)

end

def eval (pairs : List (Expr × Expr)) (e : Expr) : Faulty Expr := do (← expand pairs e).simplify

mutual

def hasUnspecified : Expr → Bool
  | .nondet _ => true
  | .num .. | .var _ => false
  | .op _ es | .special _ es => anyUnspecified es
  | .bits e f l => hasUnspecified f || hasUnspecified l || hasUnspecified e
  | .cond c x y => hasUnspecified c || hasUnspecified x || hasUnspecified y
  | .mem _ a _ _ => hasUnspecified a

def anyUnspecified : List Expr → Bool
  | [] => false
  | e :: es => hasUnspecified e || anyUnspecified es

end

/-! ### Statements -/

def clobber (place : Expr) (pairs : List (Expr × Expr)) : List (Expr × Expr) :=
  (erase place pairs).filter (fun entry =>
    match place with
    | .var v => !entry.2.vars.contains v
    | _ => true)

def dropDependent (v : Var) (pairs : List (Expr × Expr)) : Faulty (List (Expr × Expr)) :=
  pairs.filterM (fun (place, e) => do return !((← place.variablesOnWrite).contains v || e.vars.contains v))

def isLocation : Expr → Bool
  | .mem .. => true
  | _ => false

def post (registers : Registers) (stmt : Stmt) (s : Substitution) : Faulty Substitution := do
  match stmt.effect with
  | .assign v e =>
    let e ← eval s.pairs e
    let rest := erase (.var v) s.pairs
    let rest := if hasUnspecified e then rest else put (.var v) e rest
    return ⟨← (v :: registers.covered v ++ registers.covering v).foldlM (fun ps x => dropDependent x ps) rest⟩
  | .store (.mem w a segment _) e =>
    let e ← eval s.pairs e
    let location ← Expr.memory w (← eval s.pairs a) segment 0
    let rest := erase location s.pairs
    let rest := if hasUnspecified e then rest else put location e rest
    return ⟨rest.filter (fun (place, x) => !isLocation place && x.locations.isEmpty)⟩
  | .alloc pointer _ => return ⟨clobber pointer s.pairs⟩
  | .havoc v _ => return ⟨clobber (.var v) s.pairs⟩
  | .unknownCall _ => return {}
  | _ => return s

/-- The statement with known expressions in place of the variables that it uses. A statement that
becomes void is skipped. -/
def applyTo (arch : Architecture) (stmt : Stmt) (s : Substitution) : Faulty Stmt := do
  let used := (← stmt.effect.uses arch.scratch).toList arch.vars.toList
  let context ← used.foldlM (fun (c : Context) v =>
    match find? s.pairs (.var v) with
    | some e => c.assign (.var v) e
    | none => .ok c) .empty
  if context.assignments.isEmpty then return stmt
  match ← stmt.evaluate context with
  | (none, _) => return { stmt with effect := .skip }
  | (some stmt, _) =>
    match ← stmt.evaluate .empty with
    | (some stmt, _) => return stmt
    | (none, _) => throw .absent

def project (s : Substitution) (es : List Expr) : Faulty Projection := do
  return crossProduct (← es.mapM (fun e => do
    match ← eval s.pairs e with
    | .num v w => return [some ⟨v, w⟩]
    | _ => return [none]))

/-! ### Order -/

def holds (pairs : List (Expr × Expr)) (pair : Expr × Expr) : Bool :=
  match find? pairs pair.1 with
  | some e => e.equals pair.2
  | none => false

variable (s t : Substitution)

def join : Substitution := ⟨s.pairs.filter (holds t.pairs)⟩

def lessOrEqual : Bool := t.pairs.all (holds s.pairs)

def equals : Bool := s.pairs.length == t.pairs.length && s.pairs.all (holds t.pairs)

def text (s : Substitution) : String :=
  if s.pairs.isEmpty then "TOP"
  else "\x7b" ++ ", ".intercalate (s.pairs.map (fun (place, e) => place.text ++ "=" ++ e.text)) ++ "\x7d"

end Substitution

end FlowRecovery
