import FlowRecovery.Service.Connection
import FlowRecovery.Service.Successors

/-!
# Workloads

Repeatable loads for the parts of the service, of adjustable size. Each gives a number that tells
whether the part did its work.
-/

namespace FlowRecovery.Workload

def fanOut : Nat := 3

def base : Int := 0x400000

def goals (i : Nat) : List Int := (List.range fanOut).map (fun j => base + (fanOut * i + j : Nat))

def answerLength (n : Nat) : Faulty Nat := do
  let rs : Routes := (List.range n).map (fun (i : Nat) => [base + i])
  let s ← rs.response ((List.range n).map (fun (i : Nat) => ((i : Int), (goals i).map Integer.hex)))
  return s.length

/-- The routes that execution number `i` of a load with `length` addresses per route ends with:
routes of one address are all the same, and longer ones come together with the first. -/
def endings (length n i : Nat) : List Nat := if length = 1 then List.range (n + 1) else [0, i].eraseDups

/-- How many targets are found for a route and `n` further ones, and how many executions are given
up. -/
def walk (n : Nat) (length : Int) : Faulty (Nat × Nat) := do
  if length ≤ 0 then throw .outsideList
  let t := (List.range (n + 1)).foldl (fun (t : Targets) i =>
    (goals i).foldl (fun t a => t.add (endings length.toNat n i) a) t) {}
  return (t.entries.foldl (fun n e => n + e.2.length) 0, 1)

/-- How many successors are found for an instruction in a run of `n` instructions, of which every
fifth is another one. -/
def watchedSuccessors (n : Nat) : Nat :=
  (List.range n).foldl (fun total i =>
    if i % 5 = 0 then total else total + ((Watch.mk base []).leave base (goals i)).1.successors.length) 0

def messageSize : Nat := 63

/-- How many bytes of `n` messages come before the last closing mark; whether a framed message is
complete, and whether one without its frame is. -/
def roundTrip (n : Nat) : Int × Bool × Bool :=
  let body := List.replicate (messageSize - (Frame.opening.length + Frame.closing.length)) (0x78 : UInt8)
  ((n * messageSize : Nat) - (Frame.closing.length : Int), Frame.isComplete (Frame.wrap body), Frame.isComplete body)

end FlowRecovery.Workload
