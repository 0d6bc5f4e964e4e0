import FlowRecovery.Program.Harness
import FlowRecovery.Program.Initial
import FlowRecovery.Query.Code
import FlowRecovery.Query.Domains

/-!
# Queries about images

Files are loaded, linked and put into a harness; then questions about addresses, names and
statements are answered.
-/

namespace FlowRecovery.Query

def emptyProgram (options : Options) : Program := { arch := IA32.architecture, options }

def runProgram {α : Type} (a : ProgramM α) (p : Program) : Answer (α × Program) :=
  match a.run p with
  | (.ok a, p) => .ok (a, p)
  | (.error f, _) => refuse f

def formatName (i : Image) : String :=
  match i.format with
  | .executable _ => "PEModule"
  | .object _ => "ObjectFile"
  | .sectioned _ => "ELFModule"
  | .raw => "RawModule"

def systemName : TargetSystem → String
  | .windows => "WINDOWS"
  | .linux => "LINUX"
  | .unknown => "UNKNOWN"

def encodeRead (width : Int) (v : Option Int64) : Value :=
  .optional (fun v => encodeNum (Num.of v width)) v

def addressQuery (p : Program) (image : Image) (vs : List Value) : Answer Value := do
  let a ← longAt vs 1
  match ← textAt vs 0 with
  | "va" => return .optional (fun a => a) (← image.addressOf a)
  | "fp" => return image.filePosition a
  | "code" => return image.isCode a
  | "ro" => return image.isReadOnly a
  | "import" => return .list [← image.isLinkage a, ← p.isImport a, isStubAddress a]
  | "read" =>
    let width ← intAt vs 2
    let place ← Expr.memory width (.number a 64) none 0
    match place with
    | .mem .. => return encodeRead width (← image.readNumber a width)
    | _ => return .null
  | "sym" => return .list [(image.symbol? a).isSome, image.symbolText a, ← p.symbolText a]
  | kind => malformed ("unknown query " ++ kind)

def programStep {α : Type} (p : Program) (a : ProgramM α) (f : α → Program → Answer Value) : Answer (Value × Program) := do
  match a.run p with
  | (.ok a, p) => return (← settle (f a p), p)
  | (.error e, p) => return (.fault e, p)

def imageStep (image : Image) (p : Program) (step : Value) : Answer (Value × Program) := do
  let vs ← step.elements
  let image := p.mainImage?.getD image
  match ← textAt vs 0 with
  | "symaddr" => return (.optional (fun a => a) (p.addressNamed (← textAt vs 1)), p)
  | "proc" =>
    let library ← match elementOrNull vs 1 with
      | .null => pure none
      | v => pure (some (← v.toText))
    let name ← textAt vs 2
    programStep p (Program.procedureAddress library (some name)) (fun a _ => return .optional (fun a => a) a)
  | "instr" =>
    let a ← longAt vs 1
    programStep p (Program.instructionAt a) (fun i p => do
      match i with
      | none => return .null
      | some i => return .list [i.text (← p.namesAt a) a, .nat i.size])
  | "stmt" =>
    match ← decodeLabel (← element vs 1) with
    | none => return (.fault .absent, p)
    | some l => programStep p (Program.statementAt l) (fun s p => do encodeStmt p.symbolNames s)
  | "start" => return (encodeLabel? p.start, p)
  | "counts" => return (.list [.nat p.instructions.size, .nat p.statements.size], p)
  | "codebytes" =>
    return (← settle (do
      let as ← image.codeAddresses
      let total ← as.foldlM (fun (t : Int64) a =>
        match a with
        | some a => .ok (t + a)
        | none => refuse .absent) 0
      return .list [.nat as.length, total]), p)
  | _ => return (← settle (addressQuery p image vs), p)

def loadFiles (modules : List ByteArray) (main : ByteArray) : ProgramM Unit := do
  modules.forM (fun m => do let _ ← Program.load "module" m)
  Program.loadMain "main" main

def images (query : Value) : Answer Value := do
  let modules ← (← query.listField "modules").mapM decodeBytes
  let main ← decodeBytes ((query.field? "hex").getD (.text ""))
  let harness : ProgramM Unit ←
    match query.field? "harness" with
    | none => pure (pure ())
    | some v => pure (if (← v.toText) == "heuristic" then Program.installEveryProcedure else Program.installSingle)
  let (_, p) ← runProgram (do loadFiles modules main; harness) (emptyProgram { verbosity := -1 })
  match p.mainImage? with
  | none => refuse .absent
  | some image =>
    let (answers, _) ← runSteps (← query.listField "queries") p (imageStep image)
    return .record [("module", formatName image), ("os", systemName p.system), ("entry", image.entry),
      ("min", image.minAddress), ("max", image.maxAddress),
      ("exported", .sorted (image.exports.map (fun s => .list [s.name, .optional (fun a => a) s.address]))),
      ("unresolved", .sorted (image.unresolved.map (fun s => .list [s.name, .optional .text s.library]))),
      ("queries", .list answers)]

def queryProgram (query : Value) (options : Options) : Answer Program := do
  match query.field? "image" with
  | none => return emptyProgram options
  | some hex =>
    let (_, p) ← runProgram (loadFiles [] (← decodeBytes hex)) (emptyProgram options)
    return p

end FlowRecovery.Query
