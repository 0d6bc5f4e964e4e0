import FlowRecovery.Numeral
import FlowRecovery.Options.Basic

/-!
# The command line

`Choice` lists the options that a command line can set, with the text that explains each, and
`CommandLine.parse` reads the arguments of a run. Options of a single letter have one dash, all
others two. Whatever does not start with a dash is the name of a module.
-/

namespace FlowRecovery

/-- The value that an option takes on the command line. -/
inductive OptionValue where
  | flag (b : Bool)
  | number (n : Int)
  | address (v : Int64)
  | text (s : String)
  deriving DecidableEq

/-- How an option is read from and written to the options. -/
inductive Choice.Field where
  | flag (get : Options → Bool) (set : Bool → Options → Options)
  | number (get : Options → Int) (set : Int → Options → Options)
  | address (get : Options → Int64) (set : Int64 → Options → Options)
  | text (get : Options → String) (set : String → Options → Options)

/-- An option of the command line. -/
structure Choice where
  name : String
  parameter : Option String
  description : String
  field : Choice.Field

namespace Choice

def flag (name description : String) (get : Options → Bool) (set : Bool → Options → Options) : Choice :=
  ⟨name, none, description, .flag get set⟩

def number (name parameter description : String) (get : Options → Int) (set : Int → Options → Options) : Choice :=
  ⟨name, some parameter, description, .number get set⟩

def text (name parameter description : String) (get : Options → String) (set : String → Options → Options) : Choice :=
  ⟨name, some parameter, description, .text get set⟩

def value (c : Choice) (o : Options) : OptionValue :=
  match c.field with
  | .flag get _ => .flag (get o)
  | .number get _ => .number (get o)
  | .address get _ => .address (get o)
  | .text get _ => .text (get o)

end Choice

/-! ### The analyses -/

/-- An analysis that an option can ask for. -/
structure AnalysisEntry where
  letter : Char
  name : String
  description : String

def analysisEntries : List AnalysisEntry := [
  ⟨'b', "Based Constant Propagation", "Constant propagation with region-offset values."⟩,
  ⟨'c', "Constant Propagation",
    "For each location, compute the variables and memory locations that have a constant value."⟩,
  ⟨'d', "Dummy analysis", "Over-approximates all data to a single top element."⟩,
  ⟨'f', "Forward substitution",
    "Substitute expressions that are guaranteed to be constant over all paths, and use the substituted statements for " ++
      "other analyses."⟩,
  ⟨'i', "Interval analysis", "Compute strided intervals with region information."⟩,
  ⟨'k', "K-Set analysis", "For each variable, collect up to k values per location (non-relational)."⟩,
  ⟨'o', "Procedure detection", "Detect procedures using call-return matching."⟩,
  ⟨'r', "Reaching definitions analysis",
    "For each program point, calculate the set of variable definitions that reach it."⟩,
  ⟨'s', "Call-stack analysis", "Maintain a history of call-sites for each location."⟩,
  ⟨'t', "Trace replay analysis", "Replays pre-recorded traces as an under-approximation of control flow."⟩,
  ⟨'v', "BAT-VPC", "VPC-sensitive version of Bounded Address Tracking."⟩,
  ⟨'x', "Bounded Address Tracking", "Enumerate region-based addresses up to a bound per variable per location."⟩]

def analysisLetters : String := String.ofList (analysisEntries.map (·.letter))

/-! ### The options -/

open Choice in
/-- All options in the order in which they are explained: single letters first, then by name. -/
def choices : List Choice := [
  ⟨"-a", some "address", "Start analysis at given virtual address.",
    .address (·.startAddress) (fun v o => { o with startAddress := v })⟩,
  flag "-b" "Background mode, i.e., disable shutdown hook on enter." (·.background)
    (fun v o => { o with background := v }),
  flag "-h"
    ("Use heuristics to determine additional procedures and add pseudo-calls to include them in disassembly.")
    (·.heuristicEntries) (fun v o => { o with heuristicEntries := v }),
  flag "-s" "Output all reached states after analysis." (·.dumpStates) (fun v o => { o with dumpStates := v }),
  number "-v" "level" "Set verbosity to value. Default is 3." (·.verbosity) (fun v o => { o with verbosity := v }),
  flag "--all-edges"
    ("Generate a true over-approximation and add edges to all possible addresses when over-approximating a jump " ++
      "(very slow!).") (·.allEdges) (fun v o => { o with allEdges := v }),
  flag "--asm-trace" "Output any error trace as a list of assembly instructions instead of IL statements."
    (·.assemblyTrace) (fun v o => { o with assemblyTrace := v }),
  flag "--backward" "Perform secondary cpa as a backward analysis." (·.backward) (fun v o => { o with backward := v }),
  flag "--basicblocks" "Build CFA from basic-blocks instead of single statements." (·.basicBlocks)
    (fun v o => { o with basicBlocks := v }),
  flag "--bot-heap" "Initialize heap cells to BOT to force strong updates." (·.emptyHeap)
    (fun v o => { o with emptyHeap := v }),
  text "--cpa" ("\x7b" ++ analysisLetters ++ "\x7d")
    "Configure which analyses to use for control flow reconstruction." (·.analyses)
    (fun v o => { o with analyses := v }),
  text "--cpa2" ("\x7b" ++ analysisLetters ++ "\x7d")
    ("Secondary analyses to be performed after the initial CFG reconstruction and dead code elimination are " ++
      "completed.") (·.secondaryAnalyses) (fun v o => { o with secondaryAnalyses := v }),
  flag "--debug" "Stop on failed assertions or weak updates to the complete stack or all store regions." (·.debug)
    (fun v o => { o with debug := v }),
  number "--dse" "port" "Use dynamic symoblic execution to underapproximate unknown branch targets." (·.directedPort)
    (fun v o => { o with directedPort := v }),
  number "--dse-depth" "depth" "Perform DSE until a specific depth. Default is 200 instructions." (·.directedDepth)
    (fun v o => { o with directedDepth := v }),
  flag "--dse-intermediate-output" "Output CFA and stats after each DSE Request." (·.directedOutput)
    (fun v o => { o with directedOutput := v }),
  flag "--dse-only-once" "Only request DSE to resolve a top the first time it is discovered." (·.directedOnce)
    (fun v o => { o with directedOnce := v }),
  flag "--error-trace" "Build an abstract error trace for failed assertions and debug stops." (·.errorTrace)
    (fun v o => { o with errorTrace := v }),
  number "--explicit-threshold" "k" "Set the maximum number of values tracked per variable per location."
    (·.valueThreshold) (fun v o => { o with valueThreshold := v }),
  flag "--fail-fast" "Stop when unsound assumptions are necessary to continue." (·.failFast)
    (fun v o => { o with failFast := v }),
  number "--getprocaddress" "n"
    ("How to resolve GetProcAddress: 0: Always succeed, 1: Split success/fail, 2: Merge success/fail (default)")
    (·.lookupMode) (fun v o => { o with lookupMode := v }),
  flag "--graphML" "Produce graphML output instead of GraphViz .dot files." (·.graphML)
    (fun v o => { o with graphML := v }),
  number "--heap-threshold" "k" "Explicit threshold for data stored on the heap." (·.heapThreshold)
    (fun v o => { o with heapThreshold := v }),
  flag "--ignore-context" "Allow merging of different calling contexts even with call stack analysis enabled."
    (·.ignoreContext) (fun v o => { o with ignoreContext := v }),
  flag "--ignore-weak-updates" "Do not perform weak store updates (unsound)." (·.ignoreWeakUpdates)
    (fun v o => { o with ignoreWeakUpdates := v }),
  flag "--keep-dead-stack" "Do not discard stack contents below current stack pointer." (·.keepDeadStack)
    (fun v o => { o with keepDeadStack := v }),
  flag "--no-graphs" "Do not generate output graphs" (·.noGraphs) (fun v o => { o with noGraphs := v }),
  text "--procedure-graph" "p" "Generate intraprocedural CFG for procedure with give name (requires symbols)"
    (·.procedureGraph) (fun v o => { o with procedureGraph := v }),
  number "--procedures" "n"
    ("Level of procedure assumptions: 0: Pessimistic: No assumptions, treat calls and returns as jumps (default). " ++
      "1: Semi-optimistic: Abstract unknown calls according to ABI contract. " ++
      "2: Optimistic: Abstract all calls to ABI contract (fastest).") (·.procedureAbstraction)
    (fun v o => { o with procedureAbstraction := v }),
  flag "--rep-prec-boost" "Increase precision for rep-prefixed instructions." (·.repeatBoost)
    (fun v o => { o with repeatBoost := v }),
  number "--simplifyVCFG" "l"
    ("In VPC-CFG reconstruction, simplify the reconstructed graph using (0) nothing (1) DCE (2) DCE + Expression " ++
      "Substitution") (·.simplifyLifted) (fun v o => { o with simplifyLifted := v }),
  text "--ssl" "file" "Use <file> instead of pentium.ssl." (·.instructionSet.getD "")
    (fun v o => { o with instructionSet := some v }),
  flag "--summarize-rep" "Use summarizing transformer for string instructions." (·.summarizeRepeats)
    (fun v o => { o with summarizeRepeats := v }),
  number "--timeout" "t" "Set timeout in seconds for the analysis." (·.timeout) (fun v o => { o with timeout := v }),
  flag "--toplocs" "Output the 10 locations with the highest state count." (·.listBusiest)
    (fun v o => { o with listBusiest := v }),
  text "--trace-file" "f"
    "Comma separated list of trace files to use for tracereplay (default is <mainFile>.parsed)" (·.traceFiles)
    (fun v o => { o with traceFiles := v }),
  text "--vpc" "r" "Register to be used as virtual program counter." (·.virtualCounter)
    (fun v o => { o with virtualCounter := v }),
  flag "--wdm" "WDM mode, export main function as DriverMain." (·.driverModel)
    (fun v o => { o with driverModel := v })]

def choiceNamed (name : String) : Option Choice := choices.find? (·.name == name)

def Options.changed (o : Options) : List (String × OptionValue) :=
  choices.filterMap (fun c => if c.value o == c.value {} then none else some (c.name, c.value o))

/-! ### Help -/

namespace CommandLine

def lineLength : Nat := 80

def indentation : Nat := 22

/-- Appends words to a line that starts with `line`, and breaks lines that would get too long. -/
def wrap (line : String) : List String → List String
  | [] => [line]
  | w :: ws =>
    if line.length + 1 + w.length ≤ lineLength then wrap (line ++ " " ++ w) ws
    else line :: wrap (String.ofList (List.replicate indentation ' ') ++ w) ws

def explain (name description : String) : List String :=
  let padded := name ++ String.ofList (List.replicate (indentation - name.length) ' ')
  match (description.splitOn " ").filter (· != "") with
  | [] => [padded]
  | w :: ws => wrap (padded ++ w) ws

/-- The lines for an option. The option that chooses analyses is followed by their list. -/
def explainChoice (c : Choice) : List String :=
  explain ("  " ++ c.name ++ (match c.parameter with | some p => " " ++ p | none => "") ++ " ") c.description ++
    (if c.name == "--cpa" then
      analysisEntries.flatMap (fun a => explain ("        " ++ a.letter.toString) (a.name ++ ": " ++ a.description))
    else [])

def help : List String :=
  ["Usage: jakstab [options] -m mainfile [ modules... ]", "", "Options:"] ++ choices.flatMap explainChoice

end CommandLine

/-! ### Arguments -/

/-- A command line that has been read, or read until it turned out to be wrong. -/
structure CommandLine where
  options : Options := {}
  main : Option String := none
  modules : List String := []

/-- Why a command line is refused. -/
inductive CommandLine.Problem where
  | fault (f : Fault)
  | usage (message : String)

namespace CommandLine

def parseAddress (s : String) : Option Int64 :=
  (match s.toList with
  | '0' :: 'x' :: cs => Numeral.parse 16 64 (String.ofList cs)
  | _ => Numeral.parse 10 64 s).map Int64.ofInt

/-- Sets an option whose parameter is the next argument; returns what is left of the arguments. -/
def setChoice (c : Choice) (o : Options) (args : List String) : Faulty (Options × List String) :=
  let parameter : Faulty (String × List String) :=
    match args with
    | a :: rest => .ok (a, rest)
    | [] => .error .outsideArray
  match c.field with
  | .flag _ set => .ok (set true o, args)
  | .number _ set => do
    let (a, rest) ← parameter
    match Numeral.parse 10 32 a with
    | some n => return (set n o, rest)
    | none => throw .malformedNumber
  | .address _ set => do
    let (a, rest) ← parameter
    match parseAddress a with
    | some v => return (set v o, rest)
    | none => throw .malformedNumber
  | .text _ set => do
    let (a, rest) ← parameter
    return (set a o, rest)

def step (line : CommandLine) (arg : String) (rest : List String) :
    Except Problem (CommandLine × List String) :=
  if arg.startsWith "-" then
    match choiceNamed arg with
    | some c =>
      match setChoice c line.options rest with
      | .ok (o, rest) => .ok ({ line with options := o }, rest)
      | .error f => .error (.fault f)
    | none =>
      if arg == "-m" then
        match rest with
        | a :: rest => .ok ({ line with main := some a }, rest)
        | [] => .error (.fault .outsideArray)
      else .error (.usage ("Invalid command line argument: " ++ arg))
  else .ok ({ line with modules := line.modules ++ [arg] }, rest)

def parseTo : Nat → CommandLine → List String → CommandLine × Option Problem
  | 0, line, _ => (line, none)
  | _ + 1, line, [] =>
    (line, if line.main.isNone then some (.usage "No main file specified!") else none)
  | n + 1, line, arg :: rest =>
    match step line arg rest with
    | .ok (line, rest) => parseTo n line rest
    | .error p => (line, some p)

def parse (args : List String) : CommandLine × Option Problem := parseTo (args.length + 1) {} args

end CommandLine

end FlowRecovery
