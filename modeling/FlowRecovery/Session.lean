import FlowRecovery.Graph.DeadCode
import FlowRecovery.Graph.Exploration
import FlowRecovery.Options.CommandLine
import FlowRecovery.Recovery.Execution
import FlowRecovery.Recovery.Reports

/-!
# Sessions

A session goes from a command line to reports: it loads the files of a program, recovers its control
flow, writes statistics, a listing and pictures, and runs further analyses on the control flow graph
if they are asked for. Files come from and go to the surroundings of a session, which are part of
its `Job` and its `Outcome`.
-/

namespace FlowRecovery

/-- How faults are called in reports. -/
structure Wording where
  kind : Fault → String
  text : Fault → String

namespace Session

/-- What a session is to do, and its surroundings. -/
structure Job where
  arguments : List String
  files : String → Option ByteArray
  /-- The answers about requests for directed execution; nothing if nobody can be asked. -/
  answers : Option (List String) := none
  date : String := ""

/-- How a session ends. -/
inductive Ending where
  | exited (code : Int)
  | returned
  | failed (f : Fault)

/-- What is left of a session. -/
structure Outcome where
  ending : Ending
  traces : List Fault := []
  requests : List (List String) := []
  files : List (String × String) := []

/-! ### Files -/

def version : String := "0.8.4-devel"

def fileName (path : String) : String := (path.splitOn "/").getLastD ""

def baseName (path : String) : String :=
  if (fileName path).contains '.' then ".".intercalate (path.splitOn ".").dropLast else path

/-- What the names of reports start with. The driver among the modules gives the name if there is
one. -/
def reportBase (line : CommandLine) (main : String) : String :=
  let drivers := if line.options.driverModel then
    line.modules.filter (fun m => (fileName m).toLower.endsWith ".sys") else []
  baseName (drivers.getLastD main)

/-! ### Faults -/

def endsExploration : Fault → Bool
  | .unresolvable _ | .undecodable _ | .assertionViolated _ | .unknownPointer _ => true
  | _ => false

def endsSession : Fault → Bool
  | .violated _ | .tooDeep => true
  | _ => false

/-! ### Loading -/

def loadEnding : Fault → Ending
  | .unreadable | .unrecognized => .returned
  | f => .failed f

abbrev LoadM := ExceptT Ending (StateM Program)

def orEnd {α : Type} (ending : Fault → Ending) (a : ProgramM α) : LoadM α := do
  let (r, p) := a.run.run (← get)
  set p
  match r with
  | .ok x => return x
  | .error f => throw (ending f)

def contents (job : Job) (path : String) : LoadM ByteArray := do
  match job.files path with
  | some b => return b
  | none => throw .returned

def load (job : Job) (line : CommandLine) (main : String) : LoadM Unit := do
  line.modules.forM (fun path => do
    let file ← contents job path
    let _ ← orEnd loadEnding (Program.load (fileName path) file))
  let file ← contents job main
  orEnd loadEnding (Program.loadMain (fileName main) file)
  if line.options.startAddress > 0 then
    modify (fun p => { p with start := some (.ofAddress line.options.startAddress) })
  orEnd .failed (if line.options.heuristicEntries then Program.installEveryProcedure else Program.installSingle)

/-! ### Setup -/

def parts (s : String) : List String := Response.split ',' s

def linesOf (file : ByteArray) : List String :=
  let text := String.ofList (file.toList.map (fun b => Char.ofNat b.toNat))
  let ls := (text.splitOn "\n").map (fun l => if l.endsWith "\r" then String.ofList l.toList.dropLast else l)
  if ls.getLast? == some "" then ls.dropLast else ls

def recordings (job : Job) : RecoveryM (List AnalysisKind) := do
  let p := (← get).program
  (parts p.options.traceFiles).mapM (fun path => do
    match job.files path with
    | none => throw (.missingRecording path)
    | some file => return .replay (← Trace.read (fun a => (p.imageAt? a).isSome) (linesOf file)))

def analysesOf (job : Job) : List Char → RecoveryM (Option (List AnalysisKind))
  | [] => return some []
  | c :: cs => do
    let kinds ← if c == 't' then do pure (some (← recordings job))
      else pure ((AnalysisKind.ofLetter? c).map ([·]))
    match kinds with
    | none => return none
    | some ks => return (← analysesOf job cs).map (ks ++ ·)

def isReplay : AnalysisKind → Bool
  | .replay _ => true
  | _ => false

def optionText (c : Choice) (default value : Int) : String :=
  "Option [name=" ++ c.name ++ ", paramName=" ++ c.parameter.getD "null" ++ ", defaultValue=" ++ toString default ++
    ", description=" ++ c.description ++ ", value=" ++ toString value ++ "]"

def policyOf (o : Options) (hasReplay : Bool) : Faulty Policy :=
  if o.basicBlocks then .ok .blocks
  else if o.directedPort ≠ -1 then .ok .directed
  else if hasReplay then .ok .alternating
  else match o.procedureAbstraction with
    | 0 => .ok .pessimistic
    | 1 => .ok .interprocedural
    | 2 => .ok .optimistic
    | n =>
      let c := (choiceNamed "--procedures").map (fun c => optionText c ({} : Options).procedureAbstraction n)
      .error (.failure (some ("Invalid procedure abstraction level: " ++ c.getD "")))

def configure (job : Job) : RecoveryM Bool := do
  let o := (← get).program.options
  match ← analysesOf job o.analyses.toList with
  | none => return false
  | some kinds =>
    let hasReplay := kinds.any isReplay
    if !(kinds.any AnalysisKind.isExplicit || o.analyses.contains 't') then return false
    let isDirected := o.directedPort ≠ -1
    if o.basicBlocks && o.analyses.contains 't' then return false
    let policy ← policyOf o hasReplay
    modify (fun r => { r with
      composite := { kinds, isDual := hasReplay || isDirected }
      policy
      execution := { isConnected := isDirected && job.answers.isSome, answers := job.answers.getD [] } })
    return true

/-! ### Recovery of control flow -/

open Recovery

/-- The exploration of a program is over. -/
structure Finished where
  search : Search
  result : String
  isCompleted : Bool

def progressOf (x : Search) : Progress :=
  { visited := x.visited, reached := x.reached.size, visits := x.visits }

def reportOnTheWay (h : Heading) : SearchM Unit := do
  let x ← get
  let progress := { progressOf x with visited := x.visited + 1 }
  Exploration.inWorld (do
    updateGraph
    writeStatistics h progress
    writePictures h (← legend))

def traceBack : SearchM Unit := do
  let x ← get
  match x.current with
  | some s =>
    let p := x.world.program
    if p.options.assemblyTrace && (p.imageAt? s.location.address).isSome then
      let _ ← Exploration.inWorld (onProgram (Program.instructionAt s.location.address))
  | none => pure ()

def close : RecoveryM Unit := do
  let r ← get
  if r.program.options.directedPort ≠ -1 && !r.execution.isConnected then throw .absent
  updateGraph

/-- Explores the program. Faults of the exploration end it, but the session goes on. A fault at the
end of an exploration hides the fault that ended it. -/
def explore (w : Wording) (h : Heading) : RecoveryM Finished := do
  let r ← get
  let e := Recovery.explorer r.composite
  let x : Search := { world := r }
  let start ← match r.program.start with
    | some l => pure (r.composite.start r.program.arch l)
    | none => throw .absent
  let work : SearchM Unit := do
    Exploration.begin e start
    Recovery.search e (reportOnTheWay h) roundLimit
  let (ended, x) := work.run.run x
  let completed := x.waiting.isEmpty
  let finish (x : Search) (result : String) (isCompleted : Bool) : RecoveryM Finished := do
    set x.world
    tryCatch close (fun f => if endsSession f then throw f else onProgram (Program.report f))
    return { search := { x with world := ← get }, result, isCompleted }
  match ended with
  | .ok () => finish x (if completed then "OK" else "interrupted") completed
  | .error f =>
    if endsExploration f then
      let (_, x) := traceBack.run.run x
      finish x (w.kind f) false
    else
      set x.world
      let left ← tryCatch (do close; return f) (fun g => return g)
      if endsSession left then throw left
      onProgram (Program.report left)
      let result := if endsSession f then "null" else w.text f
      return { search := { x with world := ← get }, result, isCompleted := false }

/-! ### Further analyses -/

def simplify : RecoveryM Unit := do
  let g ← currentGraph
  let es ← onProgram g.substituted
  let es ← withoutDeadCode (← get).program.arch es
  let g ← ControlGraph.ofEdges es
  modify (fun r => { r with graph := some g })

/-- The analyses that letters ask for on the graph; nothing if there is none for a letter. -/
def furtherAnalyses : List Char → RecoveryM (Option (List AnalysisKind))
  | [] => return some []
  | c :: cs => do
    if c == 't' then
      onProgram (Program.report .unmade)
      throw .unrecorded
    match AnalysisKind.ofLetter? c with
    | none => return none
    | some k => return (← furtherAnalyses cs).map (k :: ·)

/-- Simplifies the control flow graph, analyses it and writes pictures of the result; false if there
is no such analysis. -/
def analyseFurther (h : Heading) (l : Legend) : RecoveryM Bool := do
  simplify
  let o := (← get).program.options
  match ← furtherAnalyses o.secondaryAnalyses.toList with
  | none => return false
  | some kinds =>
    let g ← currentGraph
    let c : Composite := { kinds }
    let x ← onProgram (if o.backward then g.exploreBackward c else g.exploreForward c)
    if !o.noGraphs then
      let notes (l : Label) : Faulty (List String) :=
        (x.reached.at_ l).mapM (fun s =>
          match s.parts with
          | part :: _ => part.text
          | [] => .error .outsideArray)
      draw h "_cfa" (g.labelPicture l (some notes))
      draw h "_ccfa" (return g.addressPicture l)
    return true

def callPairs (x : ControlGraph.GraphExploration) (p : Program) : Faulty (List (Label × Label)) := do
  let pairs ← p.findings.calls.mapM (fun (site, target) => do
    match x.reached.at_ site with
    | [] => throw .noElement
    | ss => return (ss.flatMap (fun s =>
        match s.parts with
        | .procedures ls :: _ => ls
        | _ => [])).map (fun l => (l, target)))
  return pairs.flatten.eraseDups

/-- Draws which procedures call which. Labels of calls have no looks of their own, so that only a
program without calls gets a picture. -/
def drawCalls (h : Heading) : RecoveryM Unit := do
  let g ← currentGraph
  onProgram (modify (fun p => { p with findings := { p.findings with calls := [], callees := [] } }))
  let x ← onProgram (g.exploreForward { kinds := [.procedures] })
  let pairs ← callPairs x (← get).program
  if !(← get).program.options.noGraphs then
    draw h "_callgraph" (if pairs.isEmpty then return {} else throw .absent)

/-! ### The session -/

def recover (w : Wording) (job : Job) (h : Heading) : RecoveryM Ending := do
  if !(← configure job) then return .exited 1
  let finished ← explore w h
  let p := (← get).program
  writeStatistics h { progressOf finished.search with
    isCompleted := finished.isCompleted, result := finished.result, indirectTransfers := p.countIndirect }
  let g ← currentGraph
  let l ← legend
  writeMade (h.base ++ "_jak.asm") (onProgram (Listing.text (p.options.analyses.contains 'v') g))
  let further := finished.isCompleted && !p.options.secondaryAnalyses.isEmpty
  let goOn ← if further then analyseFurther h l else do
    writePictures h l
    pure true
  if !goOn then return .exited 1
  if finished.isCompleted && p.options.procedureAbstraction = 2 then drawCalls h
  return .exited 0

/-- The machine that a session is about: the built-in one, or the one that a file describes. -/
def architectureOf (job : Job) (o : Options) : Except Ending Architecture :=
  match o.instructionSet with
  | none => .ok IA32.architecture
  | some path =>
    match job.files path with
    | none => .error .returned
    | some file =>
      match Architecture.ofTexts [file.toList.map (fun b => Char.ofNat b.toNat)] with
      | .ok a => .ok a
      | .error f =>
        match f with
        | .lexical _ | .misplaced _ | .meaningless _ | .undefined _ => .error .returned
        | f => .error (.failed f)

def run (w : Wording) (job : Job) : Outcome :=
  match CommandLine.parse job.arguments with
  | (_, some (.fault f)) => { ending := .failed f }
  | (_, some (.usage _)) => { ending := .exited 1 }
  | (line, none) =>
    match architectureOf job line.options, line.main with
    | .error e, _ => { ending := e }
    | .ok _, none => { ending := .returned }
    | .ok arch, some main =>
      match (load job line main).run.run { arch, options := line.options } with
      | (.error e, p) => { ending := e, traces := p.reports.reverse }
      | (.ok (), program) =>
        let title := "Jakstab v" ++ version ++ "   " ++ job.date ++ "\\n" ++ " ".intercalate job.arguments
        let (ended, r) := (recover w job { base := reportBase line main, title }).run.run { program }
        let traces := r.program.reports.reverse
        let outcome (e : Ending) (traces : List Fault) : Outcome :=
          { ending := e, traces, requests := r.execution.requests, files := r.reports }
        match ended with
        | .ok e => outcome e traces
        | .error f => outcome (.exited 1) (traces ++ [f])

end Session

end FlowRecovery
