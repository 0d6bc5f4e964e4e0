import FlowRecovery.Program.Basic

/-!
# Statistics

What a run amounts to in numbers, and how often states at each address were explored.
-/

namespace FlowRecovery

/-- The numbers of a run. -/
structure Statistics where
  instructions : Nat
  statements : Nat
  edges : Nat
  visited : Nat
  reached : Nat
  isCompleted : Bool
  result : String
  indirectTransfers : Nat
  unresolved : Nat
  resolved : Nat
  requests : Nat
  executedEdges : Nat

variable (p : Program)

namespace Statistics

def rule : String := String.ofList (List.replicate 71 '=')

def column : Nat := 40

def numberWidth : Nat := 8

def line (name value : String) : String :=
  let start := "   " ++ name ++ ":"
  start ++ String.ofList (List.replicate (column - start.length) ' ') ++ value

def numberLine (name : String) (n : Int) : String := line name (Text.padLeft numberWidth ' ' (toString n))

def timeLine (name : String) (milliseconds : Nat) : String :=
  line name (Text.padLeft numberWidth ' ' (toString milliseconds) ++ "ms")

/-- The statistics. The times of the whole run and of its parts are not known inside of the
analysis. -/
def lines (s : Statistics) : List String := [
  rule, "   Statistics for Control Flow Reconstruction", rule,
  timeLine "Total Time" 0, timeLine "CPA Time" 0, timeLine "DFS Time" 0, timeLine "DSE Time" 0, timeLine "Other Time" 0,
  numberLine "Instructions" s.instructions, numberLine "RTL Statements" s.statements, numberLine "CFA Edges" s.edges,
  numberLine "States Visited" s.visited, numberLine "Final State Space" s.reached,
  line "Finished Normally" (Text.padLeft numberWidth ' ' (if s.isCompleted then "true" else "false")),
  line "Analysis Result" s.result,
  numberLine "Indirect Branches (no import calls)" s.indirectTransfers, numberLine "Tops" s.unresolved,
  numberLine "Unresolved Tops" (s.unresolved - s.resolved), numberLine "DSE Requests" s.requests,
  numberLine "DSE Edges" s.executedEdges, rule]

def sectionLines : Faulty (List String) := do
  if p.system ≠ .linux then return []
  match (p.images[0]?).map Image.format with
  | some (.sectioned e) =>
    let sections ← (e.sections.zip e.names).mapM (fun (s, name) => do
      let name ← name
      if name.isEmpty || s.address = 0 then return []
      return ["Section " ++ name ++ " start: 0x" ++ Text.hex64 s.address,
        "Section " ++ name ++ " size: 0x" ++ Text.hex64 s.size])
    return ["Identified binary sections", rule] ++ sections.flatten ++ [rule]
  | _ => throw .wrongKind

def visitLines (visits : Std.HashMap Int64 Nat) : List String :=
  (visits.toList.mergeSort (fun a b => a.2 > b.2 || (a.2 == b.2 && a.1 ≤ b.1))).map
    (fun (a, n) => addressText a ++ ":" ++ toString n)

end Statistics

namespace Program

def isImportSlot (a : Int64) : Bool :=
  match (p.imageAt? a).map Image.format with
  | some (.executable e) => e.imports.any (fun i => i.slot == a)
  | _ => false

def isImportCall (i : IA32.Instruction) : Bool :=
  match i.destination with
  | some (.memory m) => m.base.isNone && m.index.isNone && p.isImportSlot (Int64.ofInt m.displacement)
  | _ => false

def countIndirect : Nat :=
  (p.instructions.toList.filter (fun (_, i) => i.isTransfer && i.isIndirect && !p.isImportCall i)).length

end Program

end FlowRecovery
