import FlowRecovery.Service.Journal
import FlowRecovery.Service.Route

/-!
# Following routes

An execution is kept on given routes: before each instruction, `Follower.enter` keeps the numbers of
the routes that the execution is still on, and gives it up if there are none. After an instruction,
`Routes.endingAt` tells which routes end there, and the addresses at which the execution may go on
are recorded for them (`Targets.add`).
-/

namespace FlowRecovery

/-- How far an execution has come. -/
structure Position where
  counter : Nat
  /-- The numbers of the routes that lead along all instructions up to the present one. -/
  routes : List Nat

/-- An execution that follows routes. -/
structure Follower where
  position : Option Position := none
  abandoned : Nat := 0

variable (rs : Routes)

def Routes.at? (route counter : Nat) : Option Int := rs[route]?.bind (fun r => r[counter]?)

variable (address : Int)

namespace Follower

def advance : Option Position → Position
  | none => ⟨0, List.range rs.length⟩
  | some p => ⟨p.counter + 1, p.routes⟩

/-- The execution comes to an instruction at an address. It is given up if no route leads there. -/
def enter (f : Follower) : Follower :=
  let p := advance rs f.position
  let kept := p.routes.filter (fun i => rs.at? i p.counter == some address)
  { position := some ⟨p.counter, kept⟩
    abandoned := if kept.isEmpty then f.abandoned + 1 else f.abandoned }

def entries (f : Follower) : Journal :=
  match f.position with
  | none => []
  | some p =>
    .details (("keeping: " ++ ",".intercalate (p.routes.map toString)) ::
      (if p.routes.isEmpty then
        ["Abandoning state with RIP=" ++ Integer.hex address ++ " PCCounter=" ++ toString p.counter] else []))

end Follower

/-! ### Targets -/

/-- The addresses found for routes: each list has no duplicates. -/
structure Targets where
  entries : List (Nat × List Int) := []

namespace Targets

def get? (t : Targets) (route : Nat) : Option (List Int) := t.entries.lookup route

def insert (entries : List (Nat × List Int)) (route : Nat) (address : Int) : List (Nat × List Int) :=
  match entries with
  | [] => [(route, [address])]
  | (n, as) :: rest =>
    if n = route then (n, if as.contains address then as else as ++ [address]) :: rest
    else (n, as) :: insert rest route address

def add (t : Targets) (routes : List Nat) (address : Int) : Targets :=
  ⟨routes.foldl (fun es r => insert es r address) t.entries⟩

def sortedTexts (as : List Int) : List String := (as.map Integer.hex).mergeSort (fun a b => decide (a ≤ b))

def toList (t : Targets) : List (Nat × List String) :=
  (t.entries.map (fun (n, as) => (n, sortedTexts as))).mergeSort (fun a b => a.1 ≤ b.1)

end Targets

/-- The numbers of the routes that end with an instruction at an address, `counter` instructions
after the first. -/
def Routes.endingAt (counter : Nat) (address : Int) : List Nat :=
  (List.range rs.length).filter (fun i =>
    match rs[i]? with
    | some r => r.length == counter + 1 && r.getLast? == some address
    | none => false)

def successorLimit : Nat := 5

/-- The addresses found after an instruction at `address` of an execution at position `counter`. -/
def Targets.after (counter : Nat) (address : Int) (successors : List Int) (t : Targets) : Targets :=
  (successors.take successorLimit).foldl (fun t a => t.add (rs.endingAt counter address) a) t

/-! ### Executions -/

/-- What directed executions find out and write down. -/
structure Findout where
  targets : Targets := {}
  journal : Journal := []

namespace Findout

def write (j : Journal) : FaultyM Findout Unit := modify (fun x => { x with journal := x.journal ++ j })

def enter (rs : Routes) (address : Int) (f : Follower) : FaultyM Findout Follower := do
  let f := f.enter rs address
  write (f.entries address)
  return f

def report (route : Nat) : FaultyM Findout Unit := do
  match (← get).targets.get? route with
  | none => throw .unknownKey
  | some as => write (.details [Integer.hex address ++ "->" ++ ",".intercalate (Targets.sortedTexts as)])

def leave (successors : List Int) (f : Follower) : FaultyM Findout Unit := do
  match f.position with
  | none => if rs.isEmpty then return else throw .unknownKey
  | some p =>
    modify (fun x => { x with targets := x.targets.after rs p.counter address successors })
    (rs.endingAt p.counter address).forM (report address)

end Findout

end FlowRecovery
