/-!
# Options

What the user can choose about an analysis. `Options` holds one field per choice, with the value
that holds unless the user says otherwise.
-/

namespace FlowRecovery

/-- The choices of a run. -/
structure Options where
  /-- The file of the instruction set; nothing for the built-in one. -/
  instructionSet : Option String := none
  /-- Where the analysis starts; -1 for the entry point of the program. -/
  startAddress : Int64 := -1
  /-- Is the program a driver whose entry is exported under the name of drivers' entries? -/
  driverModel : Bool := false
  allEdges : Bool := false
  dumpStates : Bool := false
  listBusiest : Bool := false
  failFast : Bool := false
  debug : Bool := false
  assemblyTrace : Bool := false
  errorTrace : Bool := false
  backward : Bool := false
  background : Bool := false
  graphML : Bool := false
  noGraphs : Bool := false
  heuristicEntries : Bool := false
  ignoreWeakUpdates : Bool := false
  emptyHeap : Bool := false
  summarizeRepeats : Bool := false
  basicBlocks : Bool := false
  simplifyLifted : Int := 1
  verbosity : Int := 3
  timeout : Int := -1
  /-- How far calls are trusted to keep to the calling convention: not, if they are unknown, or all
  of them. -/
  procedureAbstraction : Int := 0
  lookupMode : Int := 2
  /-- The endpoint of the server for directed execution; -1 if there is none. -/
  directedPort : Int := -1
  directedOnce : Bool := false
  directedDepth : Int := 200
  directedOutput : Bool := true
  analyses : String := "x"
  secondaryAnalyses : String := ""
  procedureGraph : String := ""
  valueThreshold : Int := 5
  heapThreshold : Int := 5
  repeatBoost : Bool := false
  keepDeadStack : Bool := false
  virtualCounter : String := "esi"
  traceFiles : String := ""
  ignoreContext : Bool := false
  deriving Inhabited

def Options.informative : Int := 3

end FlowRecovery
