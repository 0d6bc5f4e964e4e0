import FlowRecovery.Graph.Basic
import FlowRecovery.Graph.Drawing
import FlowRecovery.Program.Harness

/-!
# Pictures of control flow

The control flow of a program is drawn with a node for every label (`labelPicture`), for every
address (`addressPicture`) or for every block with its instructions (`blockPicture`,
`outlinePicture`). Statements and instructions that were not looked at before are looked at while a
picture is made.
-/

namespace FlowRecovery

/-- What pictures show about labels beside the graph itself. -/
structure Legend where
  unresolved : List Label := []
  lastCertain : List Label := []

variable (legend : Legend)

namespace Legend

def anyCertain (es : List Edge) : Bool := es.any (fun e => e.kind == .must)

def ofGraph (g : ControlGraph) (unresolved : List Label) : Legend :=
  { unresolved
    lastCertain := g.labels.toList.filter (fun l => anyCertain (g.edgesTo l) && !anyCertain (g.edgesFrom l)) }

def style (entry : Option Label) (l : Label) : ProgramM NodeStyle := do
  let s ← Program.statementAt l
  match (← get).harness with
  | none => throw .absent
  | some h =>
    let grey := if isStubAddress l.address || h.contains l.address then some "lightgrey" else none
    let fill := if legend.lastCertain.contains l then some "green"
      else if legend.unresolved.contains l then some "red"
      else grey
    if entry = some l then return { fill, border := some "green", line := some "filled,bold" }
    match s.effect with
    | .halt => return { fill, border := some "orange", line := some "filled,bold" }
    | _ => return { fill, border := grey }

end Legend

def EdgeKind.colour : EdgeKind → String
  | .may => Drawing.black
  | .must => Drawing.green

namespace ControlGraph

def labelPicture (notes : Option (Label → Faulty (List String))) (g : ControlGraph) :
    ProgramM Drawing := do
  let nodes ← g.nodes.mapM (fun l => do
    let below ← match notes with
      | none => pure ""
      | some f => do pure ("\n" ++ Drawing.ofLines (← f l))
    return { name := l.text, text := l.text ++ below, style := ← legend.style g.entry l : DrawnNode })
  let names := (← get).symbolNames
  let edges := g.edges.map (fun e =>
    ({ source := e.source.text, target := e.target.text, text := (statementOf e).map (Stmt.shown names)
       colour := some e.kind.colour } : DrawnEdge))
  return { nodes, edges }

def isAroundRun (a : Int64) : Bool := a == prologueAddress || a == epilogueAddress

def addressPicture (g : ControlGraph) : Drawing :=
  let steps := g.edges.filter (fun e => e.source.address != e.target.address)
  let addresses := (steps.flatMap (fun e => [e.source.address, e.target.address])).foldl
    (fun (seen, as) a => if seen.contains a then (seen, as) else (seen.insert a, a :: as))
    (({} : Std.HashSet Int64), ([] : List Int64))
  let shown := addresses.2.reverse.filter (fun a => !isAroundRun a)
  { nodes := shown.map (fun a =>
      { name := addressText a, text := addressText a ++ "\n"
        style := { fill := if legend.unresolved.any (fun l => l.address == a) then some "red" else none } })
    edges := (steps.filter (fun e => !isAroundRun e.source.address && !isAroundRun e.target.address)).map (fun e =>
      { source := addressText e.source.address, target := addressText e.target.address, colour := some Drawing.black }) }

def nameLength : Nat := 20

def blockTitle (l : Label) : ProgramM String := do
  let name ← (← get).symbolText l.address
  return (if name.length > nameLength then String.ofList (name.toList.take nameLength) ++ "..." else name) ++ "\\n"

def addressesOf (ss : List Stmt) : List Int64 :=
  (ss.filterMap (fun s => s.label.map Label.address)).foldr (fun a as => if as.head? == some a then as else a :: as) []

def blockBody (b : Block) : ProgramM String := do
  let lines ← (addressesOf b.statements).mapM (fun a => do
    match ← Program.instructionAt a with
    | some i => return (i.text (← (← get).namesAt a) a).replace "\t" " " ++ "\\l"
    | none => return "")
  return String.join lines

def fallsThrough (s whole : Stmt) : Faulty Bool :=
  match s.next with
  | none => .error .absent
  | some l => .ok (whole.next = some l)

def isConditional (i : Option IA32.Instruction) : Bool := (i.map (fun i => i.kind == .branch)).getD false

def sideMark (s whole : Stmt) : Faulty String := do return if ← fallsThrough s whole then "F" else "T"

/-- The edge between blocks with its mark: the sides of a conditional jump, and returns from calls.
An edge to a procedure or back from it is weak if calls have edges of their own. -/
def blockLine (e : Edge) : ProgramM DrawnEdge := do
  match statementOf e with
  | none => throw .absent
  | some s =>
    match s.label with
    | none => throw .absent
    | some l =>
      let i ← Program.instructionAt l.address
      let whole ← Program.statementAt l
      let (text, isWeak) ← match whole.effect with
        | .goto j => do
          let side ← if isConditional i then do pure (some (← sideMark s whole)) else pure none
          match j.kind with
          | .call | .ret => do
            if ← fallsThrough s whole then pure (some "call return", false) else pure (side, true)
          | _ => pure (side, false)
        | _ => pure (none, false)
      return { source := e.source.text, target := e.target.text, text, colour := some e.kind.colour
               isWeak := isWeak && (← get).options.procedureAbstraction = 1 }

def orderedBlocks (atJumps : Bool) (g : ControlGraph) : List Block :=
  (g.blocks isStubAddress atJumps).mergeSort (fun a b => !b.head.lt a.head)

def blockPicture (atJumps : Bool) (g : ControlGraph) : ProgramM Drawing := do
  let blocks := g.orderedBlocks atJumps
  let nodes ← blocks.mapM (fun b => do
    let text := (← blockTitle b.head) ++ (← blockBody b)
    return { name := b.head.text, text, style := ← legend.style g.entry b.head : DrawnNode })
  return { nodes, edges := ← (blocks.flatMap Block.edges).mapM blockLine }

def outlineLine (e : Edge) : ProgramM DrawnEdge := do
  match statementOf e with
  | none => throw .absent
  | some s =>
    match s.label with
    | none => throw .absent
    | some l =>
      let text ← if isConditional (← Program.instructionAt l.address) then do
          pure (some (← sideMark s (← Program.statementAt l)))
        else pure none
      return { source := e.source.text, target := e.target.text, text, colour := some e.kind.colour }

def outlinePicture (atJumps : Bool) (g : ControlGraph) : ProgramM Drawing := do
  let blocks := g.orderedBlocks atJumps
  let nodes ← blocks.mapM (fun b => do
    return { name := b.head.text, text := ← blockTitle b.head, style := ← legend.style g.entry b.head : DrawnNode })
  return { nodes, edges := ← (blocks.flatMap Block.edges).mapM outlineLine }

end ControlGraph

end FlowRecovery
