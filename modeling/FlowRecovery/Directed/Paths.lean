import Std.Data.HashSet
import FlowRecovery.Analysis.Edge
import FlowRecovery.Program.Basic

/-!
# Paths to unresolved jumps

Where the analysis cannot tell the targets of a jump, another program is asked to execute the
analysed program along the paths that lead there. A path is a sequence of addresses; steps inside
one instruction do not count. `AddressGraph.paths` finds all paths of bounded length from a start to
some targets, by a search that takes its visits from a stack, and `Paths.text` writes them, one to a
line.
-/

namespace FlowRecovery

/-- The successors of addresses. -/
structure AddressGraph where
  addresses : List Int64 := []
  /-- The addresses that edges from an address lead to, the address itself apart, as often as there
  are edges. -/
  successors : Std.HashMap Int64 (List Int64) := {}

namespace AddressGraph

variable (g : AddressGraph)

def addAddress (a : Int64) : AddressGraph :=
  if g.successors.contains a then g
  else { addresses := g.addresses ++ [a], successors := g.successors.insert a [] }

def addEdge (e : Edge) : AddressGraph :=
  let a := e.source.address
  let b := e.target.address
  let g := (g.addAddress a).addAddress b
  if a == b then g else { g with successors := g.successors.modify a (· ++ [b]) }

def ofEdges (es : List Edge) : AddressGraph := es.foldl addEdge {}

def next (a : Int64) : List Int64 := (g.successors[a]?.getD [])

def contains (g : AddressGraph) (a : Int64) : Bool := g.successors.contains a

/-- An address that a search has come to and not looked at. -/
structure Visit where
  address : Int64
  /-- The addresses behind, the last one first. -/
  back : List Int64 := []
  /-- The number of addresses that a path may have from here on. -/
  depth : Nat

/-- The number of visits that one visit leads to, itself included. -/
def effort (g : AddressGraph) : Nat → Int64 → Nat
  | 0, _ => 1
  | n + 1, a => 1 + (g.next a).eraseDups.foldr (fun b m => g.effort n b + m) 0

def fanOut (v : Visit) : List Visit :=
  (g.next v.address).eraseDups.map (fun b => { address := b, back := v.address :: v.back, depth := v.depth - 1 })

/-- The number of visits that the visits on a stack lead to. -/
def load (stack : List Visit) : Nat := stack.foldr (fun v m => g.effort v.depth v.address + m) 0

theorem load_append (us vs : List Visit) : g.load (us ++ vs) = g.load us + g.load vs := by
  induction us with
  | nil => exact (Nat.zero_add _).symm
  | cons u us ih => exact (congrArg _ ih).trans (Nat.add_assoc _ _ _).symm

theorem load_fanOut {v : Visit} (h : v.depth ≠ 0) : g.load (g.fanOut v) + 1 = g.effort v.depth v.address := by
  obtain ⟨n, hn⟩ := Nat.exists_eq_succ_of_ne_zero h
  rw [load, fanOut, List.foldr_map, hn, effort, Nat.add_comm]
  rfl

/-- The paths that were found, and those to targets that the visits to come lead to. -/
def search (g : AddressGraph) (isTarget : Int64 → Bool) (stack : List Visit) (found : List (List Int64)) :
    List (List Int64) :=
  match stack with
  | [] => found
  | v :: stack =>
    if v.depth = 0 then g.search isTarget stack found
    else
      g.search isTarget (g.fanOut v ++ stack)
        (if isTarget v.address then (v.address :: v.back).reverse :: found else found)
termination_by g.load stack
decreasing_by
  · simp_all [load, effort]
  · have := g.load_fanOut ‹v.depth ≠ 0›
    rw [load_append]
    change _ < g.effort v.depth v.address + g.load stack
    omega

/-- The paths of at most `depth` addresses from a start to targets. -/
def paths (start : Int64) (targets : List Int64) (depth : Int) : Faulty (List (List Int64)) :=
  if targets.isEmpty then .ok []
  else if !g.contains start then .error .absent
  else
    let goals := Std.HashSet.ofList targets
    .ok (g.search goals.contains [{ address := start, depth := depth.toNat }] []).reverse

end AddressGraph

namespace Paths

def addressTexts : List Int64 → Faulty (List String)
  | [] => .ok []
  | a :: rest =>
    if a = prologueAddress then addressTexts rest
    else if rest.contains prologueAddress then .error (.violated none)
    else .ok ((a :: rest).map addressText)

/-- The text of paths: a line for each, with its addresses separated by commas. -/
def text (paths : List (List Int64)) : Faulty String := do
  return "\n".intercalate (← paths.mapM (fun p => do return ",".intercalate (← addressTexts p)))

def withoutRepeats : List Edge → List Edge
  | [] => []
  | [e] => [e]
  | e :: f :: rest => if e.sameEnds f then withoutRepeats (f :: rest) else e :: withoutRepeats (f :: rest)

/-- The paths of at most `n` further labels that go on from `l` to a target. The edges behind are in
`back`, the last one first. An edge that is taken several times in a row shows up once. -/
def labelsFrom (es : List Edge) (start : Label) (targets : List Label) : Nat → List Edge → Label → List (List Label)
  | 0, _, _ => []
  | n + 1, back, l =>
    let here := if targets.contains l then [start :: (withoutRepeats back.reverse).map Edge.target] else []
    here ++ es.flatMap (fun e => if e.source = l then labelsFrom es start targets n (e :: back) e.target else [])

/-- The paths of at most `depth` labels from a start to targets. -/
def labels (es : List Edge) (start : Label) (targets : List Label) (depth : Int) : List (List Label) :=
  (labelsFrom es start targets depth.toNat [] start).eraseDups

end Paths

end FlowRecovery
