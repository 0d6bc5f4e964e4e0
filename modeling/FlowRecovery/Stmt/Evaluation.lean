import FlowRecovery.Expr.Simplification
import FlowRecovery.Expr.Typing
import FlowRecovery.Stmt.Basic

/-!
# Evaluation of statements

`Effect.evaluate` evaluates the expressions of a statement in a context, and forgets what the
context says about the place that the statement changes. An assignment of a place to itself
disappears. `Effect.inferTypes` fixes the widths of the numbers in a statement, and
`Effect.specialise` turns an assignment of a template into one to a variable or to memory.
-/

namespace FlowRecovery

namespace Effect

/-- The statement in a context: nothing if it does nothing, and the context after it. -/
def evaluate (c : Context) : Effect → Faulty (Option Effect × Context)
  | .assign v e => do
    let e ← e.evaluate c >>= Expr.simplify
    let c := c.forget (.var v)
    let x ← (Expr.var v).evaluate c
    if x.equals e then return (none, c)
    match x with
    | .var v => return (some (.assign v e), c)
    | _ => throw .wrongKind
  | .store m e => do
    let e ← e.evaluate c >>= Expr.simplify
    let c := c.forget m
    let x ← m.evaluate c
    if x.equals e then return (none, c)
    match x with
    | .mem .. => return (some (.store x e), c)
    | _ => return (some (.store m e), c)
  | .template w x e => do
    let e ← e.evaluate c
    let c := c.forgetAll (← x.definedOnWrite)
    let x' ← x.evaluate c
    if x'.equals e then return (none, c)
    return (some (.template w (if x'.isPlace then x' else x) e), c)
  | .assume e j => do return (some (.assume (← e.evaluate c >>= Expr.simplify) j), c)
  | .alloc p n => do
    let c := c.forgetAll (← p.definedOnWrite)
    let p ← p.evaluate c
    if p.isPlace then return (some (.alloc p n), c)
    throw .wrongKind
  | .dealloc p => do return (some (.dealloc (← p.evaluate c)), c)
  | .havoc v m => do
    let c := c.forget (.var v)
    match ← (Expr.var v).evaluate c with
    | .var v => return (some (.havoc v (← m.evaluate c)), c)
    | _ => throw .wrongKind
  | .memset d v n => do
    return (some (.memset (← d.evaluate c) (← v.evaluate c) (← n.evaluate c)), c)
  | .memcpy s d n => do
    let d ← d.evaluate c
    let s ← s.evaluate c
    return (some (.memcpy s d (← n.evaluate c)), c)
  | .goto j => do
    let condition ← j.condition.evaluate c
    let target ← j.target.mapM (Expr.evaluate c)
    return (some (.goto ⟨target, condition, j.kind⟩), c)
  | .assert e => do return (some (.assert (← e.evaluate c)), c)
  | e => .ok (some e, c)

def inferTypes : Effect → Faulty Effect
  | .assign v e => do return .assign v (← e.inferWidth v.width)
  | .store m e => do
    let w ← m.width
    return .store (← m.inferWidth w) (← e.inferWidth w)
  | .template w x e => do return .template w (← x.inferWidth w) (← e.inferWidth w)
  | .goto j => do
    let condition ← j.condition.inferWidth 1
    match j.target with
    | none => throw .absent
    | some t => return .goto ⟨some (← t.inferWidth Expr.addressWidth), condition, j.kind⟩
  | .memset d v n => do
    return .memset (← d.inferWidth Expr.addressWidth) v (← n.inferWidth Expr.addressWidth)
  | .memcpy s d n => do
    return .memcpy (← s.inferWidth Expr.addressWidth) (← d.inferWidth Expr.addressWidth)
      (← n.inferWidth Expr.addressWidth)
  | e => .ok e

/-- An assignment to a place as one to a variable or to memory. Some bits of a place are assigned by
assigning all of it. -/
def specialise (place value : Expr) : Faulty Effect := do
  let (place, value) ← match place with
    | .bits x f l => do pure (x, ← Expr.insertBits x f l value)
    | _ => pure (place, value)
  match place with
  | .var v => return .assign v value
  | .mem .. => return .store place value
  | _ => throw (.failure (some "Lefthandside of assignment is neither variable nor memory after instantiation."))

end Effect

namespace Stmt

def evaluate (c : Context) (s : Stmt) : Faulty (Option Stmt × Context) := do
  let (e, c) ← s.effect.evaluate c
  return (e.map (fun e => { s with effect := e }), c)

def inferTypes (s : Stmt) : Faulty Stmt := do return { s with effect := ← s.effect.inferTypes }

def normalize (s : Stmt) : Faulty Stmt :=
  match s.effect with
  | .template _ x e => do return { s with effect := ← Effect.specialise x e }
  | _ => .ok s

end Stmt

end FlowRecovery
