import FlowRecovery.VarSet

/-!
# What an expression reads and writes

The variables and memory locations that the value of an expression depends on, and those that are
read or changed when a value is written to the place that an expression denotes.
-/

namespace FlowRecovery

namespace Expr

mutual

def vars : Expr → VarSet
  | .var v => .singleton v
  | .op _ as => variablesOf as
  | .special _ as => variablesOf as
  | .bits x f l => ((vars f).union (vars l)).union (vars x)
  | .cond c t f => ((vars c).union (vars t)).union (vars f)
  | .mem _ a s _ => (segmentVariables s).union (vars a)
  | _ => .empty

def variablesOf : List Expr → VarSet
  | [] => .empty
  | a :: as => (vars a).union (variablesOf as)

def segmentVariables : Option Expr → VarSet
  | none => .empty
  | some s => vars s

end

mutual

/-- The memory locations that the value depends on. Those in the ends of a bit range and in a
segment do not count. -/
def locations : Expr → List Expr
  | .op _ as => locationsOf as
  | .special _ as => locationsOf as
  | .bits x _ _ => locations x
  | .cond c t f => union (union (union [] (locations c)) (locations t)) (locations f)
  | .mem w a s n => insertLast (union [] (locations a)) (.mem w a s n)
  | _ => []

def locationsOf : List Expr → List Expr
  | [] => []
  | a :: as => union (union [] (locations a)) (locationsOf as)

end

def notWritable : Fault := .failure (some "Non-writable operand in bitrange!")

/-- What happens when a value is written to a place. -/
structure Write where
  reads : VarSet
  changes : VarSet
  readsMemory : List Expr
  changesMemory : List Expr

def variablesOnWrite : Expr → Faulty VarSet
  | .var _ => .ok .empty
  | .bits _ f l => .ok ((vars f).union (vars l))
  | .mem _ a s _ => .ok ((segmentVariables s).union (vars a))
  | _ => .error .wrongKind

def definedOnWrite : Expr → Faulty VarSet
  | .var v => .ok (.singleton v)
  | .bits x _ _ => if x.isPlace then definedOnWrite x else .error notWritable
  | .mem .. => .ok .empty
  | _ => .error .wrongKind

def locationsOnWrite : Expr → Faulty (List Expr)
  | .var _ => .ok []
  | .bits x _ _ => if x.isPlace then locationsOnWrite x else .error notWritable
  | .mem _ a _ _ => .ok (locations a)
  | _ => .error .wrongKind

def locationsDefined : Expr → Faulty (List Expr)
  | .var _ => .ok []
  | .bits x _ _ => if x.isPlace then locationsDefined x else .error notWritable
  | .mem w a s n => .ok [.mem w a s n]
  | _ => .error .wrongKind

def onWrite (e : Expr) : Faulty Write := do
  return {
    reads := ← e.variablesOnWrite
    changes := ← e.definedOnWrite
    readsMemory := ← e.locationsOnWrite
    changesMemory := ← e.locationsDefined }

end Expr

end FlowRecovery
