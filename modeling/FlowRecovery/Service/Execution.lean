import FlowRecovery.Service.Follower

/-!
# Directed execution

A program is executed along routes by a machine that knows, for each instruction of a run, where the
run may go on. The runs of a machine are given; a run ends early if it leaves all routes.
-/

namespace FlowRecovery

/-- An instruction of a run: its address, and the addresses that may come next. -/
structure RunStep where
  address : Int
  successors : List Int

abbrev Run := List RunStep

/-- How a program is started for directed execution. -/
structure Launch where
  program : String
  arguments : List String

namespace Launch

def workspace : String := "/tmp/mcore_tmp"

def processes : Nat := 1

end Launch

namespace Execution

def followFrom (rs : Routes) : Run → Follower → FaultyM Findout Unit
  | [], _ => return
  | s :: rest, f => do
    let g ← Findout.enter rs s.address f
    if g.abandoned > f.abandoned then return
    Findout.write (.details [Integer.hex s.address])
    Findout.leave rs s.address s.successors g
    followFrom rs rest g

variable (rs : Routes)

def follow (r : Run) : FaultyM Findout Unit := followFrom rs r {}

def summary (t : Targets) (route : Nat) : String :=
  let r := rs[route]?.getD []
  let head := "Path " ++ toString route ++ "[len=" ++ toString r.length ++ "]"
  match t.get? route with
  | some as =>
    head ++ " ending with " ++ Integer.hex (r.getLast?.getD 0) ++ " has the following successors " ++
      ",".intercalate (Targets.sortedTexts as)
  | none => head ++ " is infeasible"

def byLength : List Nat :=
  (List.range rs.length).mergeSort (fun i j => (rs[i]?.getD []).length ≤ (rs[j]?.getD []).length)

def direct (runs : List Run) : FaultyM Findout Unit := do
  Findout.write (.details (rs.map Route.text))
  runs.forM (follow rs)
  let t := (← get).targets
  Findout.write (.details ("--Results Sorted by Pathlen--" :: (byLength rs).map (summary rs t)))

end Execution

end FlowRecovery
