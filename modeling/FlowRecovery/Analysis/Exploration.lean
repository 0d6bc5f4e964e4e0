import FlowRecovery.Analysis.Edge
import FlowRecovery.Analysis.Reached
import FlowRecovery.Container.FifoSet

/-!
# Exploration

Starting from one state, an exploration follows edges to further states until nothing new is
reached. States wait in a `Waiting` list; `Exploration.step` picks one of them, and `arrive` decides
what a new state changes: reached states may be replaced by what they become when the new state is
merged into them, and a state that the reached ones cover is not followed any further.
`Exploration.run` goes on until no state waits.

What the states are, and where edges come from, is given by an `Explorer` that works on a world of
its own.
-/

namespace FlowRecovery

/-! ### Waiting states -/

/-- States that wait to be explored, the oldest first; urgent ones come before all others. -/
structure Waiting (S : Type) [BEq S] [Hashable S] where
  urgent : FifoSet S := {}
  ordinary : FifoSet S := {}

namespace Waiting

variable {S : Type} [BEq S] [Hashable S]

def isEmpty (w : Waiting S) : Bool := w.urgent.size == 0 && w.ordinary.size == 0

def toList (w : Waiting S) : List S := w.urgent.toList ++ w.ordinary.toList

def insert (w : Waiting S) (isUrgent : Bool) (s : S) : Waiting S :=
  if isUrgent then { w with urgent := w.urgent.insert s }
  else if w.urgent.contains s then w
  else { w with ordinary := w.ordinary.insert s }

def erase (w : Waiting S) (s : S) : Waiting S := { urgent := w.urgent.erase s, ordinary := w.ordinary.erase s }

def pick? (w : Waiting S) : Option (S × Waiting S) :=
  match w.urgent.pop? with
  | some (s, urgent) => some (s, { w with urgent })
  | none => w.ordinary.pop?.map (fun (s, ordinary) => (s, { w with ordinary }))

end Waiting

/-! ### Explorers -/

/-- What states are to an exploration: `W` is the world that they belong to, `P` the precision at a
label. -/
structure Explorer (W S P : Type) where
  isUrgent : W → S → Bool
  startPrecision : Label → FaultyM W P
  /-- The state as far as it is to be tracked, and the precision after it, given what was reached.
  -/
  adjust : Reached S → P → S → FaultyM W (S × P)
  edges : S → FaultyM W (List Edge)
  isStuck : S → FaultyM W Bool
  precisionLabel : Edge → Label := Edge.target
  post : P → Edge → S → FaultyM W (List S)
  /-- What a reached state becomes when a new state is merged into it: the new state comes first. -/
  merge : W → P → S → S → Faulty S
  isCovered : W → P → S → Reached S → Faulty Bool
  isOver : W → Bool := fun _ => false

/-- What exploring a state showed. -/
structure Visit (S : Type) where
  adjusted : S
  edges : List Edge
  found : List (Edge × List S)

/-- An exploration on its way. -/
structure Exploration (W S P : Type) [BEq S] [Hashable S] where
  world : W
  reached : Reached S := {}
  waiting : Waiting S := {}
  precisions : Std.HashMap Label P := {}
  visited : Nat := 0
  visits : Std.HashMap Int64 Nat := {}
  stuck : List S := []
  current : Option S := none

namespace Exploration

variable {W S P : Type} [Located S] [BEq S] [Hashable S]

abbrev Work (W S P : Type) [BEq S] [Hashable S] := FaultyM (Exploration W S P)

def inWorld {α : Type} (a : FaultyM W α) : Work W S P α :=
  a.focus (fun x => x.world) (fun w x => { x with world := w })

variable (e : Explorer W S P)

def enqueue (s : S) : Work W S P Unit :=
  modify (fun x => { x with waiting := x.waiting.insert (e.isUrgent x.world s) s })

def precisionFor (l : Label) : Work W S P P := do
  match (← get).precisions[l]? with
  | some p => return p
  | none =>
    let p ← inWorld (e.startPrecision l)
    modify (fun x => { x with precisions := x.precisions.insert l p })
    return p

def merged (w : W) (p : P) (s : S) (reached : List S) : Faulty (List (S × S)) :=
  reached.filterMapM (fun r => do
    let m ← e.merge w p s r
    return if Located.same m r then none else some (r, m))

def replace (changes : List (S × S)) : Work W S P Unit := do
  modify (fun x => { x with
    reached := changes.foldl (fun r (old, _) => r.erase old) x.reached
    waiting := changes.foldl (fun w (old, _) => w.erase old) x.waiting })
  changes.forM (fun (_, new) => do
    if !(← get).reached.contains new then
      modify (fun x => { x with reached := x.reached.insert new })
      enqueue e new)

def arrive (p : P) (s : S) : Work W S P Unit := do
  let x ← get
  replace e (← merged e x.world p s (x.reached.at_ (Located.location s)))
  let x ← get
  if !(← e.isCovered x.world p s x.reached) then
    enqueue e s
    modify (fun x => { x with reached := x.reached.insert s })

def follow (s : S) (edge : Edge) : Work W S P (List S) := do
  let p ← precisionFor e (e.precisionLabel edge)
  let found ← inWorld (e.post p edge s)
  found.forM (arrive e p)
  return found

def noteStuck (s : S) (edges : List Edge) : Work W S P Unit := do
  if edges.isEmpty then
    if ← inWorld (e.isStuck s) then modify (fun x => { x with stuck := x.stuck ++ [s] })

/-- Explores a state. Of edges with the same ends, the first one counts. -/
def explore (s : S) : Work W S P (Visit S) := do
  let l := Located.location s
  modify (fun x => { x with
    current := some s
    visits := x.visits.insert l.address (x.visits.getD l.address 0 + 1) })
  let x ← get
  match x.precisions[l]? with
  | none => throw .absent
  | some p =>
    let (s, p) ← inWorld (e.adjust x.reached p s)
    modify (fun x => { x with precisions := x.precisions.insert (Located.location s) p, current := some s })
    let edges ← inWorld (e.edges s)
    noteStuck e s edges
    let found ← (edges.foldl Edge.insert []).mapM (fun edge => do return (edge, ← follow e s edge))
    return { adjusted := s, edges, found }

def runTo (e : Explorer W S P) (pick? : Exploration W S P → Option (S × Waiting S)) : Nat → Work W S P Unit
  | 0 => return ()
  | n + 1 => do
    let x ← get
    if e.isOver x.world then return ()
    match pick? x with
    | none => return ()
    | some (s, waiting) =>
      set { x with waiting, visited := x.visited + 1 }
      let _ ← explore e s
      runTo e pick? n

def stepLimit : Nat := twoTo 48

def run : Work W S P Unit := runTo e (fun x => x.waiting.pick?) stepLimit

def begin (s : S) : Work W S P Unit := do
  enqueue e s
  modify (fun x => { x with reached := x.reached.insert s })
  let _ ← precisionFor e (Located.location s)

end Exploration

end FlowRecovery
