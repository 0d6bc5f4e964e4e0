import FlowRecovery.Domain.Memory

/-!
# Values of registers

A valuation maps variables to abstract values; a variable without a value is unknown. Registers that
share bits are never listed together: a part of a register gets its value from the register around
it, and a write to a part is a write to that register, if its value can be listed.
-/

namespace FlowRecovery

/-- The values of variables, by the index of the variable. -/
structure Valuation (A : Type) where
  entries : Std.TreeMap Nat (Var × A) := {}

namespace Valuation

variable {A : Type} [AbstractValue A]

instance : Inhabited (Valuation A) := ⟨{}⟩

def toList (v : Valuation A) : List (Var × A) := (v.entries.toList.map Prod.snd).reverse

def find? (v : Valuation A) (x : Var) : Option A := v.entries[x.index]?.map Prod.snd

def isTop (v : Valuation A) : Bool := v.entries.isEmpty

def around? (s : Surroundings) (x : Var) : Option (Var × Expr) :=
  match s.registers.parent? x with
  | some e =>
    match e with
    | .bits (.var p) _ _ => some (p, e)
    | _ => none
  | none => none

def evaluateAt (x : Var) (n : Num) (e : Expr) : Faulty Num := do
  let c ← Context.empty.assign (.var x) n.toExpr
  Num.ofExpr (← e.evaluate c)

/-- The value of a variable; the value of a register is taken from the registers around it, `depth`
of them at most. -/
def getTo (s : Setting A) (v : Valuation A) : Nat → Var → Faulty A
  | 0, x => s.factory.top x.width
  | depth + 1, x =>
    match v.find? x with
    | some a => .ok a
    | none =>
      match around? s.toSurroundings x with
      | none => s.factory.top x.width
      | some (p, e) => do
        match ← AbstractValue.concretize (← getTo s v depth p) with
        | .all => s.factory.top x.width
        | .listed ns => s.factory.several (← ns.mapM (fun n => evaluateAt p n e))

def nesting : Nat := 128

def get (s : Setting A) (v : Valuation A) (x : Var) : Faulty A := getTo s v nesting x

def forget (s : Surroundings) (v : Valuation A) (x : Var) : Valuation A :=
  ⟨(s.registers.covering x ++ s.registers.covered x ++ [x]).foldl (fun es y => es.erase y.index) v.entries⟩

def put (s : Surroundings) (v : Valuation A) (x : Var) (a : A) : Faulty (Valuation A) := do
  let cleared := v.forget s x
  if ← AbstractValue.isTop a then return cleared
  return ⟨cleared.entries.insert x.index (x, a)⟩

def insertInto (s : Setting A) (v : Valuation A) (x : Var) (a : A) : Faulty (Option (Var × A)) := do
  match around? s.toSurroundings x with
  | none => return none
  | some (p, e) =>
    if !(← AbstractValue.isUnique a) then return none
    let old ← v.get s p
    let written ← AbstractValue.concretize a
    if written = .listed [] then throw .noElement
    match ← AbstractValue.concretize old with
    | .all => return none
    | .listed ns =>
      let values ← ns.mapM (fun n => do
        match written, e with
        | .listed (w :: _), .bits o f l => evaluateAt p n (← Expr.insertBits o f l w.toExpr)
        | _, _ => throw .absent)
      return some (p, ← s.factory.several values)

def setTo (s : Setting A) (v : Valuation A) : Nat → Var → A → Faulty (Valuation A)
  | 0, x, a => v.put s.toSurroundings x a
  | depth + 1, x, a => do
    match ← v.insertInto s x a with
    | some (p, b) => setTo s v depth p b
    | none => v.put s.toSurroundings x a

def set (s : Setting A) (v : Valuation A) (x : Var) (a : A) : Faulty (Valuation A) := setTo s v nesting x a

/-! ### Order -/

def join (s : Setting A) (v w : Valuation A) : Faulty (Valuation A) := do
  if v.isTop then return v
  if w.isTop then return w
  v.toList.foldlM (fun j (x, a) => do j.set s x (← AbstractValue.join a (← w.get s x))) {}

/-- The order: every value that the second valuation knows is known to the first. -/
def lessOrEqual (s : Setting A) (v w : Valuation A) : Faulty Bool := do
  if w.isTop then return true
  if v.isTop then return false
  Memory.allM (fun (x, a) => do AbstractValue.lessOrEqual (← v.get s x) a) w.toList

def equals (v w : Valuation A) : Bool :=
  v.entries.size == w.entries.size && v.toList.all (fun (x, a) =>
    match w.find? x with
    | some b => AbstractValue.equals a b
    | none => false)

def text (v : Valuation A) : Faulty String := do
  let entries ← v.toList.mapM (fun (x, a) => do return (Expr.var x).text ++ "=" ++ (← AbstractValue.text a))
  return "\x7b" ++ ", ".intercalate entries ++ "\x7d"

end Valuation

end FlowRecovery
