import Std.Data.HashMap
import FlowRecovery.Analysis.Edge
import FlowRecovery.Container.ScatterOrder

/-!
# Control flow found so far

While a program is explored, edges are saved by the label that they start from. No two saved edges
have the same ends; an edge that is found again may only become surer. Jumps that could not be
resolved are noted, and so is whether all jumps are accounted for.
-/

namespace FlowRecovery

/-- The control flow that was found. -/
structure Flow where
  sources : Array Label := #[]
  table : Std.HashMap Label (List Edge) := {}
  unresolved : List Label := []
  isSound : Bool := true

/-- A number by which edges are scattered: the low half of the address that they start from. -/
def Edge.scatter (e : Edge) : Int := Word.low32 e.source.address

namespace Flow

variable (f : Flow)

def edgesFrom (l : Label) : List Edge := f.table.getD l []

def saveAmong (es : List Edge) (e : Edge) : List Edge :=
  if es.any (fun x => x.target = e.target) then
    es.map (fun x => if x.target = e.target then { x with kind := x.kind.join e.kind } else x)
  else es ++ [e]

def save (l : Label) (es : List Edge) : Flow :=
  if es.isEmpty then f
  else { f with
    sources := if f.table.contains l then f.sources else f.sources.push l
    table := f.table.insert l (es.foldl saveAmong (f.edgesFrom l)) }

def saveAll (es : List Edge) : Flow :=
  (Scatter.order Label.hash (es.map Edge.source).eraseDups).foldl
    (fun f l => f.save l (Edge.startingFrom l es)) f

def edges : List Edge :=
  Scatter.order Edge.scatter ((Scatter.order Label.hash f.sources.toList).flatMap f.edgesFrom)

def unsound : Flow := { f with isSound := false }

def leaveOpen (l : Label) : Flow :=
  { f with unresolved := if f.unresolved.contains l then f.unresolved else f.unresolved ++ [l], isSound := false }

end Flow

end FlowRecovery
