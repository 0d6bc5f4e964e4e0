import Std.Data.HashMap
import FlowRecovery.Domain.Region
import FlowRecovery.Expr.Basic

/-!
# What is found out about a program as a whole

Analyses describe states at locations. Some of what they meet on the way belongs to no location:
which calls there are, which procedure an address belongs to, and which place a procedure uses as
the program counter of an interpreter.
-/

namespace FlowRecovery

/-- A place that holds a value. -/
inductive Place where
  | register (v : Var)
  | cell (region : Region) (offset : Int64) (width : Int)

/-- What analyses found out about a program as a whole. -/
structure Findings where
  calls : List (Label × Label) := []
  callees : List Label := []
  procedures : Std.HashMap Int64 Label := {}
  counters : List (Option Label × Place) := []
  knownArguments : Nat := 0
  unknownArguments : Nat := 0

namespace Findings

variable (f : Findings)

def addCall (site target : Label) : Findings :=
  { f with
    calls := if f.calls.contains (site, target) then f.calls else f.calls ++ [(site, target)]
    callees := if f.callees.contains target then f.callees else f.callees ++ [target] }

def procedureOf? (l : Label) : Option Label := f.procedures[l.address]?

def join (l procedure : Label) : Findings :=
  if (f.procedureOf? l).isSome then f else { f with procedures := f.procedures.insert l.address procedure }

def follow (source target : Label) : Findings :=
  match f.procedureOf? source with
  | some p => f.join target p
  | none => f

def counterAt? (l : Label) : Option Place := f.counters.lookup (f.procedureOf? l)

def setCounter (l : Label) (place : Place) : Findings :=
  { f with counters := (f.procedureOf? l, place) :: f.counters }

end Findings

end FlowRecovery
