import FlowRecovery.Expr.Evaluation

/-!
# Simplification by patterns

Comparisons of machine code are spelled out over flags: *less* is the sign of a difference compared
with its overflow. `Expr.simplify` recognises such spellings and writes the comparison instead. The
rules are pairs of an expression with holes and a replacement (`Rule`); they are applied from the
root downwards, round after round, until nothing changes. Addresses of memory locations are left
alone.
-/

namespace FlowRecovery

namespace Expr

def hole (n : Nat) (name : String) : Expr := .var ⟨1000 + n, name, unknownWidth⟩

/-- A rule of simplification: what matches `pattern` is replaced by `result`. -/
structure Rule where
  pattern : Expr
  result : Expr

namespace Rule

def x : Expr := hole 0 "x"

def y : Expr := hole 1 "y"

def zero : Expr := .num 0 unknownWidth

def difference : Expr := .op .plus [x, .op .neg [y]]

def lt (a b : Expr) : Expr := .op .less [a, b]

def le (a b : Expr) : Expr := .op .lessOrEqual [a, b]

def ge (a b : Expr) : Expr := .op .not [lt a b]

def lessOrEqual : Rule := ⟨.op .or [lt x y, .op .equal [x, y]], le x y⟩

def lessNotEqual : Rule := ⟨.op .and [le x y, .op .not [.op .equal [x, y]]], lt x y⟩

def lessNotEqualTurned : Rule := ⟨.op .and [le x y, .op .not [.op .equal [y, x]]], lt x y⟩

def signAgrees : Rule :=
  ⟨.op .equal [lt difference zero, .op .and [lt zero difference, lt x zero]], .op .and [le y x, lt zero y]⟩

def signAgreesFull : Rule :=
  ⟨.op .equal [lt difference zero,
      .op .or [
        .op .and [ge difference zero, lt x zero, ge y zero],
        .op .and [lt difference zero, ge x zero, lt y zero]]],
    le y x⟩

def inequalities : List Rule := [lessOrEqual, lessNotEqual, lessNotEqualTurned, signAgrees, signAgreesFull]

end Rule

abbrev Bindings := List (Nat × Expr)

mutual

def matchPattern : (pattern : Expr) → Expr → Bindings → Faulty (Option Bindings)
  | .var v, e, b =>
    match b.lookup v.index with
    | none => .ok (some ((v.index, e) :: b))
    | some old => .ok (if old.equals e then some b else none)
  | .num v _, .num v' _, b => .ok (if v == v' then some b else none)
  | .num .., _, _ => .ok none
  | .op .neg (p :: _), .num v w, b => matchPattern p (number (-v) w) b
  | .op o ps, .op o' es, b => if o == o' && ps.length == es.length then matchPatterns ps es b else .ok none
  | .op .., _, _ => .ok none
  | .special n ps, .special n' es, b =>
    if n == n' && ps.length == es.length then matchPatterns ps es b else .ok none
  | .special .., _, _ => .ok none
  | .cond c t f, .cond c' t' f', b => do
    match ← matchPattern c c' b with
    | none => return none
    | some b =>
      match ← matchPattern t t' b with
      | none => return none
      | some b => matchPattern f f' b
  | .cond .., _, _ => .ok none
  | .bits x f l, .bits x' f' l', b => do
    match ← matchPattern f f' b with
    | none => return none
    | some b =>
      match ← matchPattern l l' b with
      | none => return none
      | some b => matchPattern x x' b
  | .bits .., _, _ => .ok none
  | .nondet _, _, _ => .error (.illegalArgument (some "RTLNondet in simplification pattern!"))
  | .mem .., _, _ => .error (.illegalArgument (some "RTLMemoryLocation in simplification pattern!"))

def matchPatterns : (patterns : List Expr) → List Expr → Bindings → Faulty (Option Bindings)
  | p :: ps, e :: es, b => do
    match ← matchPattern p e b with
    | none => return none
    | some b => matchPatterns ps es b
  | _, _, b => .ok (some b)

end

def Rule.instantiate (r : Rule) (b : Bindings) : Faulty Expr :=
  r.result.evaluate ⟨[hole 0 "x", hole 1 "y"].filterMap (fun h =>
    match h with
    | .var v => (b.lookup v.index).map (fun e => (h, e))
    | _ => none), []⟩

/-- Applies the rules one after the other; nothing if none of them matches. -/
def applyRules : List Rule → Expr → Faulty (Option Expr)
  | [], _ => .ok none
  | r :: rs, e => do
    match ← matchPattern r.pattern e [] with
    | none => applyRules rs e
    | some b =>
      let e ← r.instantiate b
      return some ((← applyRules rs e).getD e)

mutual

/-- One round of simplification; nothing if it changes nothing. Where a rule matches, the operands
wait for the next round. A conditional expression is built anew only if one of its values changed.
-/
def simplifyOnce (rules : List Rule) : Expr → Faulty (Option Expr)
  | .op o as => do
    match ← applyRules rules (.op o as) with
    | some e => return some e
    | none =>
      let (as', changed) ← simplifyAll rules as
      if changed then some <$> operation o as' else return none
  | .special n as => do
    match ← applyRules rules (.special n as) with
    | some e => return some e
    | none =>
      let (as', changed) ← simplifyAll rules as
      if changed then some <$> named n as' else return none
  | .bits x f l => do
    match ← applyRules rules (.bits x f l) with
    | some e => return some e
    | none =>
      let f' ← simplifyOnce rules f
      let l' ← simplifyOnce rules l
      let x' ← simplifyOnce rules x
      if f'.isSome || l'.isSome || x'.isSome then return some (.bits (x'.getD x) (f'.getD f) (l'.getD l))
      return none
  | .cond c t f => do
    match ← applyRules rules (.cond c t f) with
    | some e => return some e
    | none =>
      let c' ← simplifyOnce rules c
      let t' ← simplifyOnce rules t
      let f' ← simplifyOnce rules f
      if t'.isSome || f'.isSome then return some (conditional (c'.getD c) (t'.getD t) (f'.getD f))
      return none
  | _ => .ok none

def simplifyAll (rules : List Rule) : List Expr → Faulty (List Expr × Bool)
  | [] => .ok ([], false)
  | a :: as => do
    let a' ← simplifyOnce rules a
    let (as', changed) ← simplifyAll rules as
    return (a'.getD a :: as', a'.isSome || changed)

end

def simplifyRounds (rules : List Rule) : Nat → Expr → Faulty Expr
  | 0, _ => .error (.failure (some "Over 50 iterations in substitution rules! Infinite loop?"))
  | rounds + 1, e => do
    match ← simplifyOnce rules e with
    | none => if rounds = 0 then simplifyRounds rules 0 e else return e
    | some e => simplifyRounds rules rounds e

def simplify (e : Expr) : Faulty Expr := simplifyRounds Rule.inequalities 52 e

end Expr

end FlowRecovery
