import FlowRecovery.Service.Integer

/-!
# Routes

A route lists the addresses that an execution is to come along; what the client wants to know is
where it goes after the last one. `Routes.read` reads routes from the lines of a request and numbers
them, and `Routes.response` writes what was found out about them.
-/

namespace FlowRecovery

abbrev Route := List Int

abbrev Routes := List Route

def Route.read (line : String) : Faulty Route :=
  (Text.split ',' line).mapM (fun s => Integer.read 16 (Text.strip s))

def Route.text (r : Route) : String := ",".intercalate (r.map Integer.hex)

/-- A route of a request, and its number. -/
structure NumberedRoute where
  route : Route
  number : Nat

namespace Routes

/-- Reads a route from each line that is not empty, and counts them from `n`. -/
def readFrom (n : Nat) : List String → Faulty (List NumberedRoute)
  | [] => .ok []
  | line :: lines =>
    if line = "" then readFrom n lines
    else do
      let r ← Route.read line
      return ⟨r, n⟩ :: (← readFrom (n + 1) lines)

def read (lines : List String) : Faulty (List NumberedRoute) := readFrom 0 lines

def lasts (rs : Routes) : List Int := rs.filterMap List.getLast?

def fromEitherEnd {α : Type} (as : List α) (n : Int) : Option α :=
  if 0 ≤ n then as[n.toNat]?
  else if n + as.length < 0 then none
  else as[(n + as.length).toNat]?

def pairs (rs : Routes) (targets : List (Int × List String)) : Faulty (List String) := do
  let lasts := rs.lasts
  let found ← targets.mapM (fun (n, ts) =>
    match ts, fromEitherEnd lasts n with
    | [], _ => .ok []
    | _, some a => .ok (ts.map (fun t => Integer.hex a ++ "," ++ t))
    | _, none => .error .outsideList)
  return found.flatten

end Routes

def answerText (pairs : List String) : String := "START" ++ ":".intercalate pairs ++ "END"

def Routes.response (rs : Routes) (targets : List (Int × List String)) : Faulty String := do
  return answerText (← rs.pairs targets)

end FlowRecovery
