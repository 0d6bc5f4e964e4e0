import FlowRecovery.Expr.Build
import FlowRecovery.VarSet

/-!
# The variables of a machine

`Registers` holds the variables of a machine in the order in which they were made, and which
registers are parts of others. A variable has one width for ever; only names of instruction
parameters stand for operands of several widths.
-/

namespace FlowRecovery

/-- The variables of a machine, and how registers lie in one another. -/
structure Registers where
  vars : Array Var := #[]
  parents : List (Nat × Expr) := []
  coveredBy : List (Nat × Nat) := []
  covers : List (Nat × Nat) := []
  deriving Inhabited

namespace Registers

def limit : Nat := 128

def find? (r : Registers) (name : String) : Option Var := r.vars.toList.find? (·.name == name)

def toList (r : Registers) : List Var := r.vars.toList

def isParameter (name : String) : Bool :=
  name.startsWith "reg" || name.startsWith "modrm" || name.startsWith "i" || name.startsWith "sti"

def bare (name : String) : Faulty String :=
  match name.toList with
  | [] => .error .outsideText
  | '%' :: cs => .ok (String.ofList cs)
  | _ => .ok name

variable (r : Registers)

/-- The variable of a name, made with the given width if there is none. An unknown width asks for
nothing. -/
def obtain (name : String) (width : Int) : Faulty (Var × Registers) := do
  let name ← bare name
  match r.find? name with
  | some v =>
    if width == unknownWidth || v.width == width || isParameter name then return (v, r)
    else throw (.violated none)
  | none =>
    if r.vars.size + 1 < limit then
      let v : Var := ⟨r.vars.size, name, width⟩
      return (v, { r with vars := r.vars.push v })
    else throw (.violated (some "Too many variables!"))

def obtainAll (names : List (String × Int)) : Faulty (List Var × Registers) :=
  names.foldlM (fun (vs, r) (n, w) => do
    let (v, r) ← r.obtain n w
    return (vs ++ [v], r)) ([], r)

def addPair (pairs : List (Nat × Nat)) (a b : Nat) : List (Nat × Nat) :=
  if pairs.contains (a, b) then pairs else pairs ++ [(a, b)]

def partners (pairs : List (Nat × Nat)) (a : Nat) : List Nat := pairs.filterMap (fun (x, y) => if x == a then some y else none)

def addAround : Nat → Nat → Nat → Registers → Faulty Registers
  | 0, _, _, _ => .error .tooDeep
  | fuel + 1, v, parent, r => do
    let r ← (partners r.coveredBy parent).foldlM (fun r a => addAround fuel v a r) r
    return { r with coveredBy := addPair r.coveredBy v parent }

def addInside : Nat → Nat → Nat → Registers → Faulty Registers
  | 0, _, _, _ => .error .tooDeep
  | fuel + 1, v, child, r => do
    let r ← (partners r.coveredBy v).foldlM (fun r a => addInside fuel a child r) r
    return { r with covers := addPair r.covers v child }

def share (name parent : String) (first last : Int) : Faulty Registers := do
  let (v, r) ← r.obtain name (wrap32 (last - first + 1))
  let (p, r) ← r.obtain parent unknownWidth
  let range := Expr.bits (.var p) (.number (Int64.ofInt first) 8) (.number (Int64.ofInt last) 8)
  let r := { r with parents := (v.index, range) :: r.parents.filter (fun (i, _) => i != v.index) }
  let r ← addAround 200 v.index p.index r
  addInside 200 p.index v.index r

def parent? (v : Var) : Option Expr := r.parents.lookup v.index

def covered (v : Var) : List Var := (partners r.covers v.index).filterMap (fun i => r.vars[i]?)

def covering (v : Var) : List Var := (partners r.coveredBy v.index).filterMap (fun i => r.vars[i]?)

end Registers

end FlowRecovery
