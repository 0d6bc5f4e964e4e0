import FlowRecovery.Expr.Build

/-!
# Canonical expressions

In a canonical expression no operation has a conditional expression as an operand: the condition is
drawn out, and the operation is written down for either value. `Expr.canonize` computes it. The
conditions that are drawn out are not looked into.
-/

namespace FlowRecovery

namespace Expr

/-- The first conditional expression among operands: the operands before it, its parts, and the
operands after it. -/
def splitConditional : List Expr → Option (List Expr × (Expr × Expr × Expr) × List Expr)
  | [] => none
  | .cond c t f :: as => some ([], (c, t, f), as)
  | a :: as => (splitConditional as).map (fun (before, parts, after) => (a :: before, parts, after))

/-- Makes an expression of operands. If one of them is a conditional expression, its condition is
drawn out. -/
def drawOut (canonize : Expr → Faulty Expr) (make : List Expr → Faulty Expr) (as : List Expr) :
    Faulty Expr :=
  match splitConditional as with
  | some (before, (c, t, f), after) => do
    let t ← make (before ++ t :: after) >>= canonize
    let f ← make (before ++ f :: after) >>= canonize
    return conditional c t f
  | none => do make (← as.mapM canonize)

/-- Canonical form of an expression; `fuel` bounds the nesting of the work. -/
def canonizeTo : Nat → Expr → Faulty Expr
  | 0, _ => .error .tooDeep
  | fuel + 1, e =>
    match e with
    | .num .. | .var _ | .nondet _ => .ok e
    | .bits x f l => do
      return .bits (← canonizeTo fuel x) (← canonizeTo fuel f) (← canonizeTo fuel l)
    | .cond c t f => do
      match ← canonizeTo fuel c with
      | .num v _ => if v == 0 then canonizeTo fuel f else canonizeTo fuel t
      | c => return conditional c (← canonizeTo fuel t) (← canonizeTo fuel f)
    | .mem w a s _ => do memory w (← canonizeTo fuel a) s 0
    | .op o as => drawOut (canonizeTo fuel) (operation o) as
    | .special n as => drawOut (canonizeTo fuel) (named n) as

def canonize (e : Expr) : Faulty Expr := canonizeTo (4 * e.size + 16) e

end Expr

end FlowRecovery
