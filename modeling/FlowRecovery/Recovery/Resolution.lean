import FlowRecovery.Recovery.Basic

/-!
# Jumps and their edges

A state at a jump tells which conditions and targets the jump may have. Each pair of them becomes an
edge with the assumption that the jump goes this way (`Jump.way`); where the target is unknown, the
jump is left open. A `Policy` says what else is done: which calls and returns are trusted, whether
statements are put together to blocks, and whether recorded runs add edges of their own.
-/

namespace FlowRecovery

namespace Jump

/-- Where a jump goes. -/
inductive Way where
  | toward (next : Option Label) (condition : Expr)
  | unknown

/-- Where a jump goes if its condition and its target have the given values. The way is open where
the target is unknown; if the condition does not hold, the target does not matter. -/
def way (j : Jump) (next : Option Label) : List (Option Num) → Faulty Way
  | [some c, t] => do
    let decided ← Expr.equal j.condition c.toExpr
    if c = .ff then return .toward next (← decided.evaluate .empty)
    match t, j.target with
    | none, _ => return .unknown
    | some _, none => throw .absent
    | some t, some e =>
      let condition ← Expr.and decided (← Expr.equal e t.toExpr)
      return .toward (some (.ofAddress (addressOfNumber t.value t.width))) (← condition.evaluate .empty)
  | _ => .error (.violated none)

end Jump

namespace Recovery

variable (s : Stmt) (j : Jump)

def assumption (next : Label) (condition : Expr) : Stmt :=
  { s with next := some next, effect := .assume condition ⟨s.label, s.next, j⟩ }

def jumpEdge (next : Label) (condition : Expr) (kind : EdgeKind) : Faulty Edge := do
  return { ← Edge.ofStmt (assumption s j next condition) with kind }

def labelOf : Faulty Label :=
  match s.label with
  | some l => .ok l
  | none => .error .absent

def edgesAnywhere : RecoveryM (List Edge) := do
  match (← get).program.mainImage?, j.target with
  | some image, some target =>
    (← image.codeAddresses).mapM (fun a => do
      match a with
      | none => throw .absent
      | some a =>
        let n := Num.of a 32
        jumpEdge s j (.ofAddress (addressOfNumber n.value n.width)) (← Expr.equal target n.toExpr) .may)
  | _, _ => throw .absent

def leaveOpen (s : Stmt) (j : Jump) : RecoveryM (List Edge) := do
  let r ← get
  let options := r.program.options
  let l ← labelOf s
  if (r.policy = .pessimistic || r.policy = .interprocedural) && options.allEdges then
    edgesAnywhere s j
  else
    onFlow (·.leaveOpen l)
    if options.debug && [.pessimistic, .interprocedural, .blocks].contains r.policy then
      throw (.unresolvable ("Unresolvable control flow from " ++ l.text))
    return []

def afterCall : RecoveryM (Option Label) := do
  let l ← labelOf s
  match (← get).program.harness with
  | none => throw .absent
  | some h =>
    if h.contains l.address then return (h.following l.address).map Label.ofAddress
    else return s.next

def edgeAfterCall (effect : Effect) : RecoveryM (List Edge) := do
  match ← afterCall s with
  | none => return []
  | some next => return [← Edge.ofStmt { s with next := some next, effect }]

/-- The edges of a jump that are there whatever its target is; nothing if the policy gives the jump
no others. -/
def trustedEdges : RecoveryM (Option (List Edge)) := do
  let r ← get
  let trusting := r.policy = .optimistic ||
    ((r.policy = .directed || r.policy = .alternating) && r.program.options.procedureAbstraction = 2)
  if r.policy = .interprocedural && j.kind = .call then return some (← edgeAfterCall s .callReturn)
  if trusting then
    match j.kind with
    | .call =>
      let es ← edgeAfterCall s (.unknownCall ⟨s.label, s.next, j⟩)
      if !es.isEmpty then onFlow Flow.unsound
      return some es
    | .ret =>
      onFlow Flow.unsound
      return none
    | _ => return some []
  return some []

def targetOf : Faulty Expr :=
  match j.target with
  | some t => .ok t
  | none => .error .absent

def assumptions (pairs : Projection) : RecoveryM (List (Label × Expr) × List Edge) :=
  pairs.foldlM (fun (ways, anywhere) pair => do
    match ← j.way s.next pair with
    | .unknown => return (ways, anywhere ++ (← leaveOpen s j))
    | .toward none _ => if (← get).policy = .optimistic then throw (dangling s) else throw .absent
    | .toward (some next) condition => return (ways ++ [(next, condition)], anywhere)) ([], [])
where
  dangling (s : Stmt) : Fault :=
    match Edge.between s.label none (.statement s) with
    | .error f => f
    | .ok _ => .absent

def isInside (p : Program) (n : Num) : Bool := (p.imageAt? n.value).isSome

def standIn (target : Num) (known : List Edge) : RecoveryM Num := do
  let r ← get
  match r.standIns.lookup target with
  | some stub => return stub
  | none =>
    let candidates := known.map (fun e => Num.of e.target.address 32)
    let free := candidates.find? (fun n => !isInside r.program n && !r.standIns.any (fun (_, stub) => stub = n))
    let stub ← match free with
      | some n => pure n
      | none =>
        match ← onProgram (Program.procedureAddress (some "JAK_UNKNOWN") (some ("proc" ++ target.toExpr.hexText))) with
        | some a => pure (Num.of a 32)
        | none => throw .absent
    modify (fun r => { r with standIns := r.standIns ++ [(target, stub)] })
    return stub

def addWitnessed (known : List Edge) (pair : List (Option Num)) : RecoveryM (List Edge) := do
  let pair ← match pair with
    | [some c, some t] =>
      if c = .ff || isInside (← get).program t then pure pair else pure [some c, some (← standIn t known)]
    | [some c, none] => if c = .ff then pure pair else throw (.violated none)
    | _ => throw (.violated none)
  match ← j.way s.next pair with
  | .toward (some next) condition => return Edge.insert known (← jumpEdge s j next condition .must)
  | .toward none _ => throw (assumptions.dangling s)
  | .unknown => throw (.violated none)

def addDirect (known : List Edge) (pair : List (Option Num)) : RecoveryM (List Edge) := do
  let (ways, anywhere) ← assumptions s j [pair]
  let direct ← ways.mapM (fun (next, condition) => jumpEdge s j next condition .may)
  return (anywhere ++ direct).foldl Edge.insert known

variable (state : CompositeState)

def resolve (s : Stmt) (j : Jump) : RecoveryM (List Edge) := do
  match ← trustedEdges s j with
  | none => return []
  | some trusted =>
    let target ← targetOf j
    let r ← get
    let pairs ← onProgram (r.composite.project state [j.condition, target])
    let found ← pairs.foldlM (addDirect s j) trusted
    if r.policy = .alternating then
      (← state.witness [j.condition, target]).foldlM (addWitnessed s j) found
    else return found

def blockFrom : Nat → List Stmt → Stmt → ProgramM (List Stmt × Stmt)
  | 0, done, s => return (done.reverse, s)
  | n + 1, done, s =>
    match s.effect, s.next with
    | .goto _, _ | .halt, _ => return (done.reverse, s)
    | _, none => throw .absent
    | _, some l => do blockFrom n (s :: done) (← Program.statementAt l)

def blockLimit : Nat := twoTo 40

def blockEdge : RecoveryM Edge := do
  let (ss, last) ← onProgram (blockFrom blockLimit [] s)
  Edge.between s.label last.label (.block ss)

def blockEdges (s : Stmt) : RecoveryM (List Edge) := do
  let heads ← match s.effect with
    | .halt => pure []
    | .goto j => do
      let (ways, _) ← assumptions s j (← onProgram ((← get).composite.project state [j.condition, ← targetOf j]))
      pure (ways.foldl (fun hs (next, condition) =>
        let h := assumption s j next condition
        if hs.any (·.equals h) then hs else hs ++ [h]) [])
    | _ => pure [s]
  heads.foldlM (fun es h => do return Edge.insert es (← blockEdge h)) []

/-- The edges from a state, as far as the policy knows them. They are saved. -/
def resolvedEdges : RecoveryM (List Edge) := do
  let s ← onProgram (Program.statementAt state.location)
  let r ← get
  let es ← if r.policy = .blocks then blockEdges state s
    else match s.effect with
      | .goto j => resolve state s j
      | .halt => pure []
      | _ =>
        let certain := (r.policy = .directed || r.policy = .alternating) && state.isWitnessed
        pure [{ ← Edge.ofStmt s with kind := if certain then .must else .may }]
  onFlow (·.save state.location es)
  return es

def edges : RecoveryM (List Edge) := do
  let es ← resolvedEdges state
  return (Edge.startingFrom state.location (← get).execution.latest).foldl Edge.insert es

def isStuck : RecoveryM Bool := do
  match (← onProgram (Program.statementAt state.location)).effect with
  | .halt => return false
  | _ => return true

def explorer (c : Composite) : Explorer Recovery CompositeState (List PartPrecision) where
  isUrgent r s := !r.program.statements.contains s.location
  startPrecision l := onProgram (c.startPrecision l)
  adjust reached p s := onProgram (c.adjust (reached.at_ s.location).length p s)
  edges := edges
  isStuck := isStuck
  post p e s := onProgram (c.post p e s)
  merge r _ new old := c.merge r.program new old
  isCovered r _ s reached := c.isCovered r.program s (reached.at_ s.location)
  isOver r := r.program.options.failFast && !r.flow.isSound

end Recovery

end FlowRecovery
