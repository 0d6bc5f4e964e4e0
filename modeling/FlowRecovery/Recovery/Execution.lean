import FlowRecovery.Directed.Paths
import FlowRecovery.Directed.Response
import FlowRecovery.Recovery.Resolution

/-!
# Rounds of directed execution

When no state is left to explore, another program may be asked to execute the analysed one along the
paths to the jumps that could not be resolved. The edges that it finds are added to the control
flow, and exploration goes on from the jumps.
-/

namespace FlowRecovery.Recovery

abbrev Search := Exploration Recovery CompositeState (List PartPrecision)

abbrev SearchM := FaultyM Search

def emptyAnswer : String := "STARTEND"

def ask (paths : List (List Int64)) : RecoveryM String := do
  onExecution (fun e => { e with wanted := e.wanted + 1 })
  let lines := Text.split '\n' (← Paths.text paths)
  let e := (← get).execution
  if !e.isConnected then throw .absent
  onExecution (fun e => { e with requests := e.requests ++ [lines], answers := e.answers.drop 1 })
  return e.answers.headD emptyAnswer

def execute (paths : List (List Int64)) (unresolved : List CompositeState) :
    RecoveryM (Response.Found CompositeState) := do
  if paths.isEmpty then return {}
  let answer ← ask paths
  onProgram (Response.read CompositeState.location unresolved answer)

def union {α : Type} [BEq α] (as bs : List α) : List α := bs.foldl (fun as b => if as.contains b then as else as ++ [b]) as

/-- Asks about states without edges. The states to explore again are returned. -/
def askAbout (stuck : List CompositeState) : RecoveryM (List CompositeState) := do
  let r ← get
  let options := r.program.options
  let unresolved := if options.directedOnce then stuck else stuck ++ r.execution.asked
  let graph := AddressGraph.ofEdges r.flow.edges
  let paths ← graph.paths prologueAddress (unresolved.map (fun s => s.location.address)).eraseDups options.directedDepth
  let found ← execute paths unresolved
  onExecution (fun e => { e with
    latest := found.edges
    found := found.edges.foldl Edge.insert e.found
    resolved := union e.resolved (found.again.map CompositeState.location) })
  let before := (← get).flow.edges.length
  onFlow (·.saveAll found.edges)
  if (← get).flow.edges.length = before then return []
  if options.directedOnce then return found.again
  onExecution (fun e => { e with asked := e.asked ++ stuck })
  return (← get).execution.asked

def executionRound (e : Explorer Recovery CompositeState (List PartPrecision)) : SearchM Unit := do
  let again ← Exploration.inWorld (askAbout (← get).stuck)
  again.forM (Exploration.enqueue e)
  modify (fun x => { x with stuck := [] })

/-- Explores until no state waits. If execution can be asked for, it is, and `report` is called
before exploration goes on. -/
def search (e : Explorer Recovery CompositeState (List PartPrecision)) (report : SearchM Unit) : Nat → SearchM Unit
  | 0 => return ()
  | n + 1 => do
    Exploration.run e
    if (← get).world.program.options.directedPort = -1 then return ()
    if !(← get).waiting.isEmpty then return ()
    executionRound e
    if (← get).waiting.isEmpty || e.isOver (← get).world then return ()
    report
    search e report n

def roundLimit : Nat := twoTo 48

end FlowRecovery.Recovery
