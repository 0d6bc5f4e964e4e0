import FlowRecovery.Analysis.Composite
import FlowRecovery.Analysis.Exploration
import FlowRecovery.Graph.Basic

/-!
# Programs whose control flow is being recovered

A `Recovery` is a program together with what was found out about its control flow: the edges, what
directed execution added to them, the control flow graph once there is one, and the reports that
were written on the way.
-/

namespace FlowRecovery

/-- How statements become edges. -/
inductive Policy where
  | pessimistic
  | interprocedural
  /-- Calls return and keep to the calling convention; returns lead nowhere. -/
  | optimistic
  /-- As with the first policy, but edges lead from block to block. -/
  | blocks
  | directed
  | alternating
  deriving DecidableEq

/-- What directed execution did so far. -/
structure Execution where
  isConnected : Bool := false
  /-- The answers that are still to come; all others are empty. -/
  answers : List String := []
  wanted : Nat := 0
  /-- The requests that were sent, in order: each has a line for every path. -/
  requests : List (List String) := []
  latest : List Edge := []
  found : List Edge := []
  resolved : List Label := []
  asked : List CompositeState := []

/-- A program whose control flow is being recovered. -/
structure Recovery where
  program : Program
  composite : Composite := { kinds := [] }
  policy : Policy := .pessimistic
  flow : Flow := {}
  execution : Execution := {}
  standIns : List (Num × Num) := []
  graph : Option ControlGraph := none
  reports : List (String × String) := []

abbrev RecoveryM := FaultyM Recovery

namespace Recovery

def onProgram {α : Type} (a : ProgramM α) : RecoveryM α :=
  FaultyM.focus (fun (r : Recovery) => r.program) (fun p r => { r with program := p }) a

def onFlow (f : Flow → Flow) : RecoveryM Unit := modify (fun r => { r with flow := f r.flow })

def onExecution (f : Execution → Execution) : RecoveryM Unit := modify (fun r => { r with execution := f r.execution })

end Recovery

end FlowRecovery
