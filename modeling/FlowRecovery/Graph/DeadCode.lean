import FlowRecovery.Graph.Basic
import FlowRecovery.Program.Basic

/-!
# Removal of dead assignments

A variable is live at a label if its value may be used on the way from there; at the end of a way
all registers are live. Registers that share bits live together: a use of a part is a use of the
registers around it, and a write to a register is a write to its parts. An assignment to a variable
that is not live where its edge leads is dead, and its edge is removed unless it is one of several
from its label: the edges to its label lead to where it led.

Removal moves the ends of edges, so that two edges may come to have the same ends. `Thinning`
therefore keeps edges by a number; an edge is looked for by its ends, and the first one that has
them counts.
-/

namespace FlowRecovery

/-- The variables that are live at labels. Of several entries for a label, the first counts. -/
abbrev Liveness := List (Label × VarSet)

def liveAt (live : Liveness) (l : Label) : VarSet := (live.lookup l).getD .empty

/-- A graph whose dead assignments are being removed. Of the edges that are left, `out` and `into`
list those that count as edges from their source and as edges to their target. -/
structure Thinning where
  edges : Array Edge
  left : List Nat
  out : List Nat := []
  into : List Nat := []
  removed : Nat := 0

namespace Thinning

variable (t : Thinning)

def edge (n : Nat) : Edge := t.edges.getD n default

def same (m n : Nat) : Bool := (t.edge m).sameEnds (t.edge n)

/-- Adds the number of an edge, unless there is one with the same ends. -/
def insertIn (ns : List Nat) (n : Nat) : List Nat := if ns.any (t.same n) then ns else ns ++ [n]

def eraseIn (ns : List Nat) (n : Nat) : List Nat := ns.eraseP (t.same n)

def outOf (l : Label) : List Nat := t.out.filter (fun n => (t.edge n).source == l)

def intoOf (l : Label) : List Nat := t.into.filter (fun n => (t.edge n).target == l)

def indexed : Thinning :=
  let ns := t.left.foldl t.insertIn []
  { t with out := ns, into := ns }

/-! ### Live variables -/

variable (arch : Architecture)

def liveBefore (s : Stmt) (after : VarSet) : Faulty VarSet := do
  let killed := (← s.effect.defines arch.scratch).around arch.vars.covered arch.vars.toList
  let needed := (← s.effect.uses arch.scratch).around arch.vars.covering arch.vars.toList
  let live := (after.diff killed).union needed
  match s.effect with
  | .unknownCall _ => return live.union arch.registers
  | _ => return live

def statement (t : Thinning) (n : Nat) : Faulty Stmt :=
  match (t.edge n).transformer with
  | .statement s => .ok s
  | .block _ => .error .wrongKind

def firstLiveness (t : Thinning) : Liveness :=
  t.left.foldl (fun live n =>
    let l := (t.edge n).target
    if (t.outOf l).isEmpty then (l, arch.registers) :: live else live) []

def passOn (t : Thinning) (live : Liveness) (l : Label) : Faulty (Liveness × List Label) :=
  (t.intoOf l).foldlM (fun (live, changed) n => do
    let e := t.edge n
    let before ← liveBefore arch (← t.statement n) (liveAt live l)
    let present := liveAt live e.source
    let joined := present.union before
    if joined = present then return (live, changed) else return ((e.source, joined) :: live, e.source :: changed))
    (live, [])

def livenessFrom (arch : Architecture) (t : Thinning) : Nat → List Label → Liveness → Faulty Liveness
  | 0, _, live | _, [], live => .ok live
  | n + 1, l :: rest, live => do
    let (live, changed) ← t.passOn arch live l
    livenessFrom arch t n (changed ++ rest) live

def livenessLimit : Nat := twoTo 48

def liveness (t : Thinning) : Faulty Liveness :=
  livenessFrom arch t livenessLimit (t.left.map (fun n => (t.edge n).target)) (t.firstLiveness arch)

/-! ### Removal -/

def isDead (live : Liveness) (n : Nat) : Bool :=
  let e := t.edge n
  match e.transformer with
  | .statement s =>
    match s.effect with
    | .assign v _ => !(liveAt live e.target).contains v
    | _ => false
  | .block _ => false

def redirect (target : Label) (n : Nat) : Thinning :=
  let t := { t with
    into := t.eraseIn t.into n
    edges := t.edges.setIfInBounds n { t.edge n with target } }
  { t with into := t.insertIn t.into n }

def remove (n : Nat) : Thinning :=
  let e := t.edge n
  if (t.outOf e.source).length > 1 then t
  else
    let t := { t with
      into := t.eraseIn t.into n
      out := t.eraseIn t.out n
      left := t.eraseIn t.left n
      removed := t.removed + 1 }
    (t.intoOf e.source).foldl (fun t m => t.redirect e.target m) t

def round (t : Thinning) : Faulty Thinning := do
  let t := t.indexed
  let live ← t.liveness arch
  let dead := (t.left.filter (t.isDead live)).foldl t.insertIn []
  return dead.foldl remove t

/-- Removes dead edges until there is none to remove; each round but the last one removes one. -/
def rounds (arch : Architecture) : Nat → Thinning → Faulty Thinning
  | 0, t => .ok t
  | n + 1, t => do
    let t' ← t.round arch
    if t'.removed > t.removed then rounds arch n t' else return t'

end Thinning

def withoutDeadCode (arch : Architecture) (es : List Edge) : Faulty (List Edge) := do
  let t : Thinning := { edges := es.toArray, left := List.range es.length }
  let t ← Thinning.rounds arch (es.length + 1) t
  return t.left.map t.edge

end FlowRecovery
