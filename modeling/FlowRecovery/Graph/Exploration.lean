import FlowRecovery.Analysis.Composite
import FlowRecovery.Analysis.Exploration
import FlowRecovery.Graph.Basic

/-!
# Analyses of a control flow graph

Once the control flow of a program is known, further analyses follow the edges of its graph, forward
from the entry or backward from where it ends. Forward substitution is such an analysis:
`substituted` gives the edges with known expressions in place of variables.
-/

namespace FlowRecovery.ControlGraph

/-- How states are explored along the edges that `edges` gives; they come to the label that `goal`
gives for an edge. -/
def explorerAlong (c : Composite) (edges : Label → List Edge) (goal : Edge → Label) :
    Explorer Program CompositeState (List PartPrecision) where
  isUrgent _ _ := false
  startPrecision l := c.startPrecision l
  adjust reached p s := c.adjust (reached.at_ s.location).length p s
  edges s := return edges s.location
  isStuck s := do
    match (← Program.statementAt s.location).effect with
    | .halt => return false
    | _ => return true
  post p e s := do return (← c.post p e s).map (fun t => { t with location := goal e })
  merge p _ new old := c.merge p new old
  isCovered p _ s reached := c.isCovered p s (reached.at_ s.location)

abbrev GraphExploration := Exploration Program CompositeState (List PartPrecision)

def exploreFrom (c : Composite) (e : Explorer Program CompositeState (List PartPrecision)) (l : Label) :
    ProgramM GraphExploration := do
  let x : GraphExploration := { world := ← get }
  let start := c.start (← get).arch l
  let (r, x) := (do Exploration.begin e start; Exploration.run e : Exploration.Work _ _ _ Unit).run.run x
  set x.world
  match r with
  | .ok () => return x
  | .error f => throw f

variable (g : ControlGraph)

def exploreForward (c : Composite) : ProgramM GraphExploration := do
  match g.entry with
  | none => throw .absent
  | some l => exploreFrom c (explorerAlong c g.edgesFrom Edge.target) l

def commonEnd : Label := .ofAddress 0xFFFFFF01

def ends : List Label := g.nodes.filter (fun l => (g.edgesFrom l).isEmpty)

def exploreBackward (c : Composite) : ProgramM GraphExploration := do
  let arrived (l : Label) : List Edge := Scatter.order Edge.scatter (g.edgesTo l)
  match g.ends with
  | [] => throw (.failure (some "CFA has no sink!"))
  | [l] => exploreFrom c (explorerAlong c arrived Edge.source) l
  | ls =>
    let last := ls.map (fun l => ({ source := l, target := commonEnd, transformer := .statement (.ofEffect .skip) } : Edge))
    let arrived (l : Label) : List Edge := if l = commonEnd then Scatter.order Edge.scatter last else arrived l
    exploreFrom c (explorerAlong c arrived Edge.source) commonEnd

/-- The edge with known expressions in place of variables; exactly one state has to be known where
it starts. -/
def substitute (x : GraphExploration) (e : Edge) : ProgramM Edge := do
  match x.reached.at_ e.source with
  | [s] =>
    match s.parts, e.transformer with
    | [.substitution known], .statement stmt =>
      return { e with transformer := .statement (← known.applyTo (← get).arch stmt) }
    | _, _ => throw .wrongKind
  | _ => throw (.violated none)

def substituted : ProgramM (List Edge) := do
  let x ← g.exploreForward { kinds := [.substitution] }
  g.edges.mapM (substitute x)

end FlowRecovery.ControlGraph
