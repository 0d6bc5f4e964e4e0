import Std.Data.TreeMap
import FlowRecovery.IA32.Lifting
import FlowRecovery.Image.Basic
import FlowRecovery.Options.Basic
import FlowRecovery.Program.Findings
import FlowRecovery.Stubs.Library

/-!
# Programs

A program is a set of images whose places are linked with each other, stubs for what no image
exports, and the instructions and statements that were found in it so far. Instructions are decoded
when they are asked for, and a decoded instruction leaves its statements at the labels of its
address.
-/

namespace FlowRecovery

/-- The system that a program is made for. -/
inductive TargetSystem where
  | windows | linux | unknown
  deriving DecidableEq

/-- The statements before and after the run of a program. -/
inductive Harness where
  | single
  /-- Calls of everything that looks like a procedure, at addresses up to the given one. -/
  | everyProcedure (last : Int64)

def prologueAddress : Int64 := 0xface0000

namespace Harness

def contains (h : Harness) (a : Int64) : Bool :=
  match h with
  | single => a == prologueAddress || a == epilogueAddress
  | everyProcedure last => a ≥ prologueAddress && a ≤ last

def following (h : Harness) (a : Int64) : Option Int64 :=
  match h with
  | single => if a == prologueAddress then some epilogueAddress else none
  | everyProcedure last =>
    if a ≥ prologueAddress && a < last then some (a + 1)
    else if a == last then some epilogueAddress
    else none

end Harness

/-- A program, as far as it is known. -/
structure Program where
  arch : Architecture
  options : Options
  images : Array Image := #[]
  main : Option Nat := none
  system : TargetSystem := .unknown
  exported : List (String × ExportedSymbol) := []
  unresolved : List (Nat × UnresolvedSymbol) := []
  stubs : Option StubLibrary := none
  harness : Option Harness := none
  start : Option Label := none
  statements : Std.HashMap Label Stmt := {}
  instructions : Std.TreeMap Int64 IA32.Instruction := {}
  findings : Findings := {}
  reports : List Fault := []
  deriving Inhabited

/-- Works on a program. What was changed before a fault stays changed. -/
abbrev ProgramM := ExceptT Fault (StateM Program)

namespace Program

/-! ### Images -/

variable (p : Program) (a : Int64)

def imageAt? : Option Image := p.images.find? (fun i => i.filePosition a ≥ 0)

def mainImage? : Option Image := p.main.bind (p.images[·]?)

def isImport : Faulty Bool :=
  if isStubAddress a then .ok true
  else match p.imageAt? a with
    | none => .ok false
    | some i => i.isLinkage a

def plainName (name : String) : Faulty String :=
  match name.toList with
  | [] => .error .outsideText
  | c :: cs => .ok (String.ofList ((if c == '@' || c == '_' then cs else c :: cs).takeWhile (· != '@')))

def fillIn (place : Nat × UnresolvedSymbol) (target : Option Int64) : ProgramM Unit := do
  let p ← get
  match p.images[place.1]? with
  | none => throw .absent
  | some image =>
    let image ← image.resolve place.2 target
    set { p with images := p.images.set! place.1 image }

def linkImages : ProgramM Unit := do
  let waiting := (← get).unresolved
  let left ← waiting.filterMapM (fun place => do
    match (← get).exported.lookup (← plainName place.2.name) with
    | some symbol =>
      fillIn place symbol.address
      return none
    | none => return some place)
  modify (fun p => { p with unresolved := left })

def systemOf (image : Image) : Option TargetSystem :=
  match image.format with
  | .executable _ => some .windows
  | .sectioned _ => some .linux
  | _ => none

def load (fileName : String) (file : ByteArray) : ProgramM Nat := do
  let p ← get
  let image ← Image.ofFile p.options.driverModel fileName file
  if p.images.any (fun i => i.maxAddress ≥ image.minAddress && i.minAddress ≤ image.maxAddress) then
    throw (.failure (some "Virtual addresses of modules overlap!"))
  let number := p.images.size
  let named ← image.exports.mapM (fun s => return (← plainName s.name, s))
  set { p with
    images := p.images.push image
    system := (systemOf image).getD p.system
    unresolved := p.unresolved ++ image.unresolved.map (number, ·)
    exported := named.foldl (fun t (name, s) => Scatter.put t name s) p.exported }
  linkImages
  return number

/-! ### Statements -/

/-- Puts a statement at its label; one that is equal to the present one changes nothing. -/
def put (s : Stmt) (p : Program) : Program :=
  match s.label with
  | none => p
  | some l =>
    match p.statements[l]? with
    | some present => if present.equals s then p else { p with statements := p.statements.insert l s }
    | none => { p with statements := p.statements.insert l s }

def putAll (ss : List Stmt) (p : Program) : Program := ss.foldl (fun p s => p.put s) p

def procedureAddress (library name : Option String) : ProgramM (Option Int64) := do
  let p ← get
  match name.bind (fun n => p.exported.lookup n) with
  | some s => return s.address
  | none =>
    match p.stubs with
    | none => throw .absent
    | some stubs =>
      let (result, stubs) := stubs.resolve p.arch p.options.lookupMode library name
      set { p with stubs := some stubs }
      match result with
      | .error f => throw f
      | .ok (address, ss) =>
        modify (putAll ss)
        return address

def installStubs : ProgramM Unit := do
  let p ← get
  let stubs? := p.mainImage?.bind (fun i =>
    if i.isCoff then some { system := .windows : StubLibrary }
    else match i.format with
      | .sectioned _ => some { system := .linux }
      | _ => none)
  set { p with stubs := stubs? }
  let left ← p.unresolved.filterMapM (fun place => do
    let p ← get
    match p.stubs with
    | none => throw .absent
    | some stubs =>
      let (result, stubs) := stubs.resolve p.arch p.options.lookupMode place.2.library (some place.2.name)
      set { p with stubs := some stubs }
      match result with
      | .error f => throw f
      | .ok (none, _) => return some place
      | .ok (some address, ss) =>
        modify (putAll ss)
        fillIn place (some address)
        return none)
  modify (fun p => { p with unresolved := left })

def loadMain (fileName : String) (file : ByteArray) : ProgramM Unit := do
  let number ← load fileName file
  modify (fun p => { p with main := some number, start := p.images[number]?.map (fun i => ⟨i.entry, 0⟩) })
  installStubs

def report (f : Fault) : ProgramM Unit := modify (fun p => { p with reports := f :: p.reports })

def instructionAt : ProgramM (Option IA32.Instruction) := do
  let p ← get
  match p.instructions[a]? with
  | some i => return some i
  | none =>
    match p.harness with
    | none => throw .absent
    | some h =>
      if h.contains a || isStubAddress a then return none
      match p.imageAt? a with
      | none => return none
      | some image =>
        let pos := image.filePosition a
        if pos < 0 ∨ Word.low32 pos < 0 ∨ !image.isCode a then return none
        match (image.bytes.map (IA32.Instruction.read · (Word.low32 pos).toNat)).getD (.error (some .absent)) with
        | .ok i =>
          set { p with instructions := p.instructions.insert a i }
          return some i
        | .error (some f) =>
          if p.options.verbosity ≥ Options.informative then report f
          return none
        | .error none => return none

/-- Puts the statements of an instruction at its address. An instruction whose statements cannot be
made is skipped, byte by byte; where their widths do not fit together, the mismatch is reported
before the instruction. -/
def putInstruction (l : Label) (i : IA32.Instruction) : ProgramM Unit := do
  let p ← get
  match i.lift p.arch p.options.summarizeRepeats l.address with
  | .ok ss => modify (putAll ss)
  | .error f =>
    match f with
    | .violated _ | .tooDeep => throw f
    | _ =>
      match f with
      | .illTyped detail => report (.typeMismatch detail)
      | _ => pure ()
      report f
      modify (put { label := some l, next := some ⟨l.address + 1, 0⟩, effect := .skip })

def statementAt (l : Label) : ProgramM Stmt := do
  match (← get).statements[l]? with
  | some s => return s
  | none =>
    match ← instructionAt l.address with
    | none =>
      let halt : Stmt := { label := some l, next := none, effect := .halt }
      modify (put halt)
      if (← get).options.debug then throw (.undecodable ("Disassembly failed at " ++ addressText l.address))
      return halt
    | some i =>
      putInstruction l i
      match (← get).statements[l]? with
      | some s => return s
      | none => throw (.violated (some ("Disassembly did not produce label: " ++ l.text)))

/-! ### Names -/

def symbol? (p : Program) (a : Int64) : Faulty (Option String) :=
  if isStubAddress a then
    match p.stubs with
    | none => .error .absent
    | some stubs => .ok (stubs.symbol? a)
  else .ok ((p.imageAt? a).bind (·.symbol? a))

def symbolText : Faulty String := do return (← p.symbol? a).getD (addressText a)

def symbolNames : SymbolNames := fun a => (p.imageAt? a).map (·.symbolText a)

def namesAt : Faulty IA32.AddressNames :=
  if isStubAddress a then
    match p.stubs with
    | none => .error .absent
    | some stubs => .ok (fun b => (stubs.symbol? b).getD (addressText b))
  else .ok (((p.imageAt? a).map Image.names).getD IA32.plainNames)

def addressNamed (p : Program) (name : String) : Option Int64 := p.images.findSome? (·.addressNamed name)

end Program

end FlowRecovery
