import FlowRecovery.Graph.Basic
import FlowRecovery.Program.Basic

/-!
# The listing of a program

The listing shows the instructions that were found, in the order of their addresses, with where
transfers of control go to and come from.
-/

namespace FlowRecovery

def Place.text : Place → String
  | .register v => v.name
  | .cell region offset width =>
    "m" ++ toString width ++ "[" ++ region.text ++ " + " ++ toString offset.toInt ++ "]"

namespace Listing

/-- The edges of transfers of control, by the addresses at their ends. -/
structure Transfers where
  source : Std.HashMap Int64 (List Edge) := {}
  target : Std.HashMap Int64 (List Edge) := {}

def isTransfer (a : Int64) : ProgramM Bool := do
  return ((← Program.instructionAt a).map IA32.Instruction.isTransfer).getD false

def transfers (g : ControlGraph) : ProgramM Transfers :=
  g.edges.foldlM (fun (t : Transfers) e => do
    let a := e.source.address
    let b := e.target.address
    if ← isTransfer a then
      if a == b then return t
      else return {
        source := t.source.insert a (t.source.getD a [] ++ [e])
        target := t.target.insert b (t.target.getD b [] ++ [e]) }
    else return t) {}

def endText (a : Int64) (e : Edge) : String := addressText a ++ "(" ++ e.kind.name ++ ")"

def nameLines (image : Image) (a : Int64) : String :=
  match image.symbol? a with
  | some name => "\n" ++ name ++ ":\n"
  | none => ""

def notes (t : Transfers) (a : Int64) (i : IA32.Instruction) : String :=
  let targets := t.source.getD a []
  let from_ := Scatter.order Edge.scatter (t.target.getD a [])
  (if i.isTransfer then
    "\t; targets: " ++ (if targets.isEmpty then "unresolved"
      else ", ".intercalate (targets.map (fun e => endText e.target.address e)))
  else "") ++
  (if from_.isEmpty then ""
  else "\t; from: " ++ ", ".intercalate (from_.map (fun e => endText e.source.address e)))

/-- The text of an instruction. In front of it may stand the place of the virtual program counter.
-/
def entry (p : Program) (withCounter : Bool) (t : Transfers) (a : Int64) (i : IA32.Instruction) : Faulty String :=
  match p.imageAt? a with
  | none => .error .absent
  | some image =>
    let counter := if withCounter then ((p.findings.counterAt? ⟨a, 0⟩).map Place.text).getD "" ++ "\t" else ""
    .ok (nameLines image a ++ counter ++ addressText a ++ ":\t" ++ i.text image.names a ++ notes t a i ++ "\n" ++
      (if i.kind == .ret then "\n" else ""))

/-- The listing of the instructions of a program. Transfers of control are left out if no graphs are
asked for. -/
def text (withCounter : Bool) (g : ControlGraph) : ProgramM String := do
  let t ← if (← get).options.noGraphs then pure {} else transfers g
  let p ← get
  return String.join (← p.instructions.toList.mapM (fun (a, i) => entry p withCounter t a i))

end Listing

end FlowRecovery
