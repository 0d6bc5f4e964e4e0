import FlowRecovery.Expr.Canonical
import FlowRecovery.Stmt.Evaluation

/-!
# Sequences of statements

The statements of one instruction. The operations build the new sequence from left to right; when a
statement fails, what has been built so far is kept beside the fault (`Attempt`).
-/

namespace FlowRecovery

/-- What an operation on a sequence leaves behind, and why it stopped, if it did. -/
structure Attempt where
  built : List Stmt
  fault : Option Fault := none

namespace Attempt

def result (a : Attempt) : Faulty (List Stmt) :=
  match a.fault with
  | none => .ok a.built
  | some f => .error f

/-- Makes a step with each statement and collects what the steps leave of them. -/
def build {α : Type} (step : α → Stmt → Faulty (Option Stmt × α)) (c : α) (built : List Stmt)
    (finish : α → List Stmt → List Stmt := fun _ built => built) : List Stmt → Attempt
  | [] => { built := finish c built }
  | s :: rest =>
    match step c s with
    | .error f => { built := built, fault := some f }
    | .ok (s', c) => build step c (built ++ s'.toList) finish rest

end Attempt

namespace Sequence

/-- Statements for special roles in the instruction: skip it, or repeat it. -/
structure Control where
  skip : Option Expr := none
  again : Option Expr := none

def isVariable (name : String) : Expr → Bool
  | .var v => v.name == name
  | _ => false

def evaluate (c : Context) : List Stmt → Attempt :=
  .build (fun c s => s.evaluate c) c []

def normalize : List Stmt → Attempt :=
  .build (fun _ s => s.normalize.map fun s => (some s, ())) () []

/-- The canonical form of one statement: an assignment to the place `SKIP` or `RPT` steers the
instruction, other assignments get canonical expressions and lose their location. -/
def canonizeOne (k : Control) (s : Stmt) : Faulty (Option Stmt × Control) :=
  match s.effect with
  | .template w x e => do
    let x' ← x.canonize
    let e' ← e.canonize
    if !x'.isPlace then
      throw (.failure (some ("Error: LHS of assignment no longer writable after canonization: " ++ x.text ++ " = " ++
        x'.text)))
    if isVariable "SKIP" x' then return (none, { k with skip := some e' })
    if isVariable "RPT" x' then return (none, { k with again := some e' })
    if x'.equals e' then return (none, k)
    return (some (.ofEffect (.template w x' e')), k)
  | _ => do
    let (s', _) ← s.evaluate .empty
    return (s', k)

/-- The jumps that steer an instruction: past it in front, and back to it at its end. -/
def steer (pc : Var) (k : Control) (seq : List Stmt) : List Stmt :=
  let front := match k.skip with
    | some e => [Stmt.ofEffect (.goto ⟨some (.var pc), e, .stringLengthCheck⟩)]
    | none => []
  let back := match k.again with
    | some e => if e.equals .ff then [] else [Stmt.ofEffect (.goto ⟨none, e, .repeated⟩)]
    | none => []
  front ++ seq ++ back

/-- The canonical form of all statements. A sequence without statements is not steered. -/
def canonize (pc : Var) : List Stmt → Attempt :=
  .build canonizeOne {} [] fun k built => if built.isEmpty then [] else steer pc k built

def replace (old new : Stmt) (seq : List Stmt) : List Stmt :=
  seq.map (fun s => if s.equals old then new else s)

def text (names : SymbolNames) (seq : List Stmt) : String :=
  "\x7b " ++ String.join (seq.map (fun s => s.shown names ++ "; ")) ++ " \x7d"

def defines (scratch : VarSet) (seq : List Stmt) : Faulty VarSet :=
  seq.foldlM (fun acc s => do return acc.union (← s.effect.defines scratch)) .empty

end Sequence

end FlowRecovery
