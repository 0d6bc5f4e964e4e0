import FlowRecovery.Graph.Basic

/-!
# The graph of one procedure

The edges of a procedure are those that can be followed from its entry without entering the
procedures that it calls and without returning. A call becomes an edge to the place after it, if
control can come back to that place at all.
-/

namespace FlowRecovery.ControlGraph

/-- The labels that come after the waiting ones, in the order in which they are met; `step` gives
the labels that come directly after a label, and `n` bounds the number of labels that are looked at.
-/
def visitFrom (step : Label → List Label) : Nat → Std.HashSet Label → List Label → List Label
  | 0, _, _ | _, _, [] => []
  | n + 1, visited, l :: rest =>
    let fresh := ((step l).filter (fun m => !visited.contains m)).eraseDups
    fresh ++ visitFrom step n (fresh.foldl (fun v m => v.insert m) visited) (rest ++ fresh)

def reachable (g : ControlGraph) (l : Label) : List Label :=
  visitFrom (fun m => (g.edgesFrom m).map Edge.target) (g.labels.size + 2) {} [l]

/-- The edge that stands for an edge inside of a procedure, if it belongs to the procedure. With
`hasReturns`, calls have an edge to the place after them anyway. -/
def insideProcedure (hasReturns : Bool) (g : ControlGraph) (e : Edge) : Option Edge :=
  match statementOf e with
  | some s =>
    match s.effect with
    | .assume _ source =>
      match source.jump.kind, source.next with
      | .call, next =>
        if hasReturns then none
        else
          match next with
          | some next =>
            let return_ : Stmt := { s with next := some next, effect := .callReturn }
            if (g.reachable e.target).contains next then
              some { source := e.source, target := next, transformer := .statement return_ }
            else some e
          | none => some e
      | .ret, _ => none
      | _, _ => some e
    | _ => some e
  | none => some e

def procedureEdges (hasReturns : Bool) (g : ControlGraph) (head : Label) : List Edge :=
  let inside (l : Label) : List Edge := (g.edgesFrom l).filterMap (insideProcedure hasReturns g)
  let visited := visitFrom (fun l => (inside l).map Edge.target) (g.labels.size + 2) {} [head]
  let found := (head :: visited.filter (fun l => l != head)).flatMap inside
  Scatter.order Edge.scatter (found.foldl Edge.insert [])

def procedureAt (hasReturns : Bool) (g : ControlGraph) (address : Option Int64) : Faulty ControlGraph :=
  let heads : List Label := match address with
    | some a => g.labels.toList.filter (fun l => l.address == a)
    | none => []
  match heads.mergeSort (fun l m => !m.lt l) with
  | [] => .ok {}
  | head :: _ => ofEdges (g.procedureEdges hasReturns head)

end FlowRecovery.ControlGraph
