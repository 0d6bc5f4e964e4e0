import FlowRecovery.Graph.Pictures
import FlowRecovery.Graph.Procedure
import FlowRecovery.Recovery.Basic
import FlowRecovery.Report.Listing
import FlowRecovery.Report.Statistics

/-!
# Reports on recovered control flow

Reports are texts by name: the statistics of a run, a listing of the instructions, and pictures of
the control flow. Their names start with the same base. A report that is written again replaces the
one of its name.
-/

namespace FlowRecovery.Recovery

/-- How reports are called, and what they say about the run that they belong to. -/
structure Heading where
  base : String
  title : String

def write (name text : String) : RecoveryM Unit :=
  modify (fun r => { r with reports := Scatter.put r.reports name text })

/-- Writes a report that is made on the way; it stays empty if that fails. -/
def writeMade (name : String) (make : RecoveryM String) : RecoveryM Unit := do
  write name ""
  write name (← make)

def draw (h : Heading) (suffix : String) (picture : ProgramM Drawing) : RecoveryM Unit := do
  let asElements := (← get).program.options.graphML
  writeMade (h.base ++ suffix ++ (if asElements then ".graphml" else ".dot")) (do
    let d ← onProgram picture
    return if asElements then d.graphML else d.dot h.title)

def updateGraph : RecoveryM Unit := do
  let g ← ControlGraph.ofEdges (← get).flow.edges
  modify (fun r => { r with graph := some g })

def currentGraph : RecoveryM ControlGraph := do
  match (← get).graph with
  | some g => return g
  | none => throw .absent

def legend : RecoveryM Legend := do return .ofGraph (← currentGraph) (← get).flow.unresolved

/-- How far the exploration of a program has come. -/
structure Progress where
  visited : Nat
  reached : Nat
  visits : Std.HashMap Int64 Nat
  isCompleted : Bool := false
  result : String := "null"
  indirectTransfers : Nat := 0

def statistics (p : Progress) : RecoveryM Statistics := do
  let g ← currentGraph
  let r ← get
  return {
    instructions := r.program.instructions.size, statements := r.program.statements.size, edges := g.size
    visited := p.visited, reached := p.reached, isCompleted := p.isCompleted, result := p.result
    indirectTransfers := p.indirectTransfers, unresolved := r.flow.unresolved.length
    resolved := r.execution.resolved.length, requests := r.execution.wanted, executedEdges := r.execution.found.length }

/-- Writes the statistics of a run. If that fails, the failure is reported and the run goes on. -/
def writeStatistics (h : Heading) (p : Progress) : RecoveryM Unit := do
  let attempt : RecoveryM Unit := do
    let s ← statistics p
    let sections ← Statistics.sectionLines (← get).program
    write (h.base ++ "_stats.dat") (Drawing.ofLines (s.lines ++ sections))
    write (h.base ++ "_location_count.dat") (Drawing.ofLines (Statistics.visitLines p.visits))
  tryCatch attempt (fun f => onProgram (Program.report f))

def writePictures (h : Heading) (l : Legend) : RecoveryM Unit := do
  let options := (← get).program.options
  if options.noGraphs then return ()
  let g ← currentGraph
  draw h "_cfa" (g.labelPicture l none)
  draw h "_ccfa" (return g.addressPicture l)
  draw h "_asmcfg" (g.blockPicture l true)
  let name := options.procedureGraph
  if !name.isEmpty then
    let p := (← get).program
    let inner ← g.procedureAt (options.procedureAbstraction = 1) (p.addressNamed name)
    draw h ("_" ++ name ++ "_asmcfg") (inner.blockPicture l false)
    draw h ("_" ++ name ++ "_topo") (inner.outlinePicture l false)

end FlowRecovery.Recovery
