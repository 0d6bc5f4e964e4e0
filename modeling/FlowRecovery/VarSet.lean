import FlowRecovery.Expr.Basic

/-!
# Sets of variables

A set of variables is a bit mask over the numbers of the variables, so that union, intersection and
difference are the bitwise operations. `VarSet.mem` is the membership view.
-/

namespace FlowRecovery

/-- A set of variables. -/
structure VarSet where
  mask : Nat
  deriving DecidableEq, Inhabited

namespace VarSet

def empty : VarSet := ⟨0⟩

variable (s : VarSet)

def contains (v : Var) : Bool := s.mask.testBit v.index

def singleton (v : Var) : VarSet := ⟨1 <<< v.index⟩

def union (s t : VarSet) : VarSet := ⟨s.mask ||| t.mask⟩

def inter (s t : VarSet) : VarSet := ⟨s.mask &&& t.mask⟩

def diff (s t : VarSet) : VarSet := ⟨s.mask ^^^ (s.mask &&& t.mask)⟩

def insert (v : Var) : VarSet := s.union (singleton v)

def erase (v : Var) : VarSet := s.diff (singleton v)

def ofList (vs : List Var) : VarSet := vs.foldl insert empty

def isEmpty : Bool := s.mask == 0

def subset (s t : VarSet) : Bool := s.inter t == s

def toList (vars : List Var) : List Var := vars.filter s.contains

/-- The variables of a set, and for those in a list also their relatives. -/
def around (relatives : Var → List Var) (vars : List Var) : VarSet :=
  (s.toList vars).foldl (fun k v => k.union (.ofList (relatives v))) s

def size (vars : List Var) : Nat := (s.toList vars).length

end VarSet

end FlowRecovery
