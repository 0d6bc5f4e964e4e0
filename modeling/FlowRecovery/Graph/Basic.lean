import Std.Data.HashSet
import FlowRecovery.Recovery.Flow

/-!
# Control flow graphs

A control flow graph is made of edges between labels, no two of which have the same ends. Exactly
one label, the entry, has no edge to it. Labels that can only be passed one after the other form a
`chain`; a chain starts at a head, and each label that is not a head belongs to the chain of its
only predecessor. A `Block` is what happens along a chain.
-/

namespace FlowRecovery

/-- A control flow graph. -/
structure ControlGraph where
  labels : Array Label := #[]
  sources : Array Label := #[]
  out : Std.HashMap Label (List Edge) := {}
  into : Std.HashMap Label (List Edge) := {}
  entry : Option Label := none

namespace ControlGraph

variable (g : ControlGraph)

def edgesFrom (l : Label) : List Edge := g.out.getD l []

def edgesTo (l : Label) : List Edge := g.into.getD l []

def contains (g : ControlGraph) (l : Label) : Bool := g.out.contains l || g.into.contains l

def addLabel (l : Label) : ControlGraph := if g.contains l then g else { g with labels := g.labels.push l }

variable (e : Edge)

/-- Adds an edge of a single statement, unless there is one with the same ends. -/
def addSingle : ControlGraph :=
  if (g.edgesFrom e.source).any (fun x => x.target = e.target) then g
  else
    let g := g.addLabel e.source
    let g := if e.target = e.source then g else g.addLabel e.target
    { g with
      sources := if g.out.contains e.source then g.sources else g.sources.push e.source
      out := g.out.insert e.source (g.edgesFrom e.source ++ [e])
      into := g.into.insert e.target (g.edgesTo e.target ++ [e]) }

def addEdge : Faulty ControlGraph :=
  match e.transformer with
  | .statement _ => .ok (g.addSingle e)
  | .block ss => ss.foldlM (fun g s => do return g.addSingle (← Edge.ofStmt s)) g

def nodes : List Label := Scatter.order Label.hash g.labels.toList

def edges : List Edge :=
  Scatter.copyOrder Edge.scatter ((Scatter.order Label.hash g.sources.toList).flatMap g.edgesFrom)

def size : Nat := g.sources.foldl (fun n l => n + (g.edgesFrom l).length) 0

def findEntry : Faulty Label :=
  match g.nodes.filter (fun l => (g.edgesTo l).isEmpty) with
  | [] => .error (.violated (some "No entry point found! First statement in cycle?"))
  | [l] => .ok l
  | l :: m :: _ => .error (.violated (some ("Graph has multiple entry points: " ++ l.text ++ " and " ++ m.text)))

def ofEdges (es : List Edge) : Faulty ControlGraph := do
  let g ← es.foldlM addEdge {}
  return { g with entry := some (← g.findEntry) }

/-! ### Blocks -/

def statementOf : Option Stmt := e.transformer.statements.getLast?

def isAssumption : Bool :=
  match (statementOf e).map Stmt.effect with
  | some (.assume _ _) => true
  | _ => false

def isCallReturn : Bool :=
  match (statementOf e).map Stmt.effect with
  | some .callReturn => true
  | _ => false

/-- Does a chain start at the label? If `atJumps` is set, one starts after every jump, too. -/
def isHead (isStub : Int64 → Bool) (atJumps : Bool) (g : ControlGraph) (l : Label) : Bool :=
  match g.edgesTo l with
  | [e] =>
    (g.edgesFrom e.source).length > 1 || (!isStub e.source.address && isStub l.address) ||
      (atJumps && (isAssumption e || isCallReturn e))
  | _ => true

/-- The labels that follow each other from a label on, with no other way in or out; the number
bounds their count. -/
def chain (g : ControlGraph) (isHead : Label → Bool) : Nat → Label → List Label
  | 0, l => [l]
  | n + 1, l =>
    match g.edgesFrom l with
    | [e] => if isHead e.target then [l] else l :: g.chain isHead n e.target
    | _ => [l]

/-- What happens along a chain, and where it leads. -/
structure Block where
  head : Label
  statements : List Stmt
  edges : List Edge

/-- What happens at a label: its statement, or the jump that its edges decide. -/
def statementsAt (l : Label) : List Stmt :=
  match g.edgesFrom l with
  | [] => []
  | [e] => (statementOf e).toList
  | e :: _ =>
    match (statementOf e) with
    | some s =>
      match s.effect with
      | .assume _ source => [{ label := source.label, next := source.next, effect := .goto source.jump }]
      | .callReturn => []
      | _ => [s]
    | none => []

/-- The edge between blocks that stands for an edge. One side of a jump keeps its assumption. -/
def blockEdge (head : Label) (many : Bool) (e : Edge) : Edge :=
  match statementOf e with
  | some s =>
    let kept := if many && isAssumption e then s else { s with effect := .skip }
    { source := head, target := e.target, transformer := .statement kept }
  | none => { e with source := head }

/-- The block of a chain. A block in which nothing happens has a statement that does nothing. -/
def block (isHead : Label → Bool) (head : Label) : Block :=
  let ls := g.chain isHead g.labels.size head
  let last := ls.getLast?.getD head
  let out := g.edgesFrom last
  let ss := ls.flatMap g.statementsAt
  { head
    statements := if ss.isEmpty then [{ label := some last, next := out.head?.map Edge.target, effect := .skip }] else ss
    edges := (out.filter (fun e => isHead e.target)).map (blockEdge head (out.length > 1)) }

def blocks (isStub : Int64 → Bool) (atJumps : Bool) (g : ControlGraph) : List Block :=
  let heads := g.labels.toList.filter (isHead isStub atJumps g)
  let table := Std.HashSet.ofList heads
  heads.map (g.block table.contains)

end ControlGraph

end FlowRecovery
