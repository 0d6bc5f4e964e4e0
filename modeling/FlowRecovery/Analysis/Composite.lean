import FlowRecovery.Analysis.Part
import FlowRecovery.Analysis.Reached

/-!
# Composite analyses

Several analyses run side by side. A composite state describes the states at one label in which the
description of every analysis holds. Where one analysis has several successors, every combination is
a successor; where one has none, there is none. Analyses help each other in two ways: forward
substitution puts expressions into statements before the others see them, and intervals take over
addresses that are known.
-/

namespace FlowRecovery

/-- The descriptions of all analyses at a label. -/
structure CompositeState where
  location : Label
  parts : List Part

/-- Analyses side by side. -/
structure Composite where
  kinds : List AnalysisKind
  /-- Are there runs beside the analyses, recorded ones or some that can be asked for? Then analyses
  may know nothing. -/
  isDual : Bool := false

/-! ### Projections -/

namespace Projection

def unify : List (Option Num) → List (Option Num) → Option (List (Option Num))
  | [], [] => some []
  | a :: as, b :: bs =>
    match a, b with
    | some m, some n => if m = n then (unify as bs).map (a :: ·) else none
    | some _, none => (unify as bs).map (a :: ·)
    | none, _ => (unify as bs).map (b :: ·)
  | _, _ => none

def inter (p q : Projection) : Projection :=
  (p.flatMap (fun a => q.filterMap (unify a))).eraseDups

def meet : Option Projection → Option Projection → Option Projection
  | found, none => found
  | none, some q => some q
  | some r, some q => some (inter r q)

/-- The combinations that fit all projections that say something; nothing if none does. -/
def interAll : List (Option Projection) → Option Projection := List.foldl meet none

end Projection

namespace CompositeState

def equals (s t : CompositeState) : Bool :=
  s.location == t.location && s.parts.length == t.parts.length && (s.parts.zip t.parts).all (fun (a, b) => a.equals b)

def join (p : Program) (s t : CompositeState) : Faulty CompositeState := do
  return { s with parts := ← (s.parts.zip t.parts).mapM (fun (a, b) => a.join p b) }

def partsBelow (p : Program) : List (Part × Part) → Faulty Bool
  | [] => .ok true
  | (a, b) :: rest => do if ← a.lessOrEqual p b then partsBelow p rest else return false

def lessOrEqual (p : Program) (s t : CompositeState) : Faulty Bool :=
  if s.location = t.location then partsBelow p (s.parts.zip t.parts) else .ok false

/-- The numbers that expressions may have together; nothing if no analysis knows about them. -/
def project (s : CompositeState) (es : List Expr) : ProgramM (Option Projection) := do
  return Projection.interAll (← s.parts.mapM (fun part => part.project es))

def witness (s : CompositeState) (es : List Expr) : Faulty Projection := do
  return ((← s.parts.mapM (fun part => part.witness es)).flatMap (fun p => p.getD [])).eraseDups

def isWitnessed (s : CompositeState) : Bool := s.parts.any Part.isWitnessed

end CompositeState

instance : Located CompositeState := ⟨CompositeState.location, CompositeState.equals⟩

instance : BEq CompositeState := ⟨CompositeState.equals⟩

instance : Hashable CompositeState := ⟨fun s => hash s.location⟩

namespace Composite

variable (c : Composite)

def position? (kind : AnalysisKind) : Option Nat :=
  ((c.kinds.zipIdx.filter (fun (k, _) => k == kind)).map Prod.snd).getLast?

def start (c : Composite) (arch : Architecture) (l : Label) : CompositeState :=
  { location := l, parts := c.kinds.map (Part.start arch l) }

def startPrecision (c : Composite) (l : Label) : ProgramM (List PartPrecision) := c.kinds.mapM (Part.startPrecision l)

def substituted (s : CompositeState) (stmt : Stmt) : ProgramM Stmt := do
  match (c.position? .substitution).bind (fun i => s.parts[i]?) with
  | some (.substitution x) => x.applyTo (← get).arch stmt
  | _ => return stmt

/-- The numbers that expressions may have together. Without runs beside the analyses, some analysis
has to know. -/
def project (c : Composite) (s : CompositeState) (es : List Expr) : ProgramM Projection := do
  match ← s.project es with
  | some p => return p
  | none => if c.isDual then return [] else throw (.violated none)

/-- Statements that ask something of a state: a condition that has to hold, and output. -/
def inspect (s : CompositeState) (stmt : Stmt) : ProgramM Unit := do
  match stmt.effect with
  | .debug _ e =>
    let _ ← c.project s [e]
  | .assert e =>
    let text := "Assertion " ++ (stmt.text (← get).symbolNames).getD "null"
    match ← c.project s [e] with
    | [] => throw .noElement
    | [t] =>
      match t with
      | some n :: _ => if n = .ff then throw (.assertionViolated (text ++ " failed!"))
      | _ => throw .absent
    | _ => throw (.assertionViolated (text ++ " might have failed!"))
  | _ => pure ()

def postParts (c : Composite) (source target : Label) (stmt whole : Stmt) :
    Nat → List (Part × PartPrecision) → ProgramM (Option (List (List Part)))
  | _, [] => return some []
  | i, (part, precision) :: rest => do
    let asWritten := c.position? .substitution == some i || c.position? .callStacks == some i
    match ← part.post precision source target (if asWritten then whole else stmt) with
    | [] => return none
    | parts => return (← postParts c source target stmt whole (i + 1) rest).map (parts :: ·)

def strengthenFrom (p : Program) : (done rest : List Part) → Faulty (List Part)
  | done, [] => .ok done
  | done, part :: rest => do
    strengthenFrom p (done ++ [← part.strengthen p (done ++ part :: rest)]) rest

/-- The list with one more state at its end, unless it holds an equal one. -/
def insert (ss : List CompositeState) (s : CompositeState) : List CompositeState :=
  if ss.any s.equals then ss else ss ++ [s]

def postStatement (precision : List PartPrecision) (source target : Label) (stmt : Stmt)
    (s : CompositeState) : ProgramM (List CompositeState) := do
  let seen ← c.substituted s stmt
  c.inspect s seen
  match ← c.postParts source target seen stmt 0 (s.parts.zip precision) with
  | none => return []
  | some choices =>
    (crossProduct choices).foldlM (fun found parts => do
      return insert found { location := target, parts := ← strengthenFrom (← get) [] parts }) []

def postBlock (c : Composite) (precision : List PartPrecision) : List Stmt → List CompositeState →
    ProgramM (List CompositeState)
  | [], ss => return ss
  | stmt :: rest, ss => do
    let next ← ss.foldlM (fun found s => do
      let e ← Edge.ofStmt stmt
      return (← c.postStatement precision e.source e.target stmt s).foldl insert found) []
    postBlock c precision rest next

def post (precision : List PartPrecision) (e : Edge) (s : CompositeState) :
    ProgramM (List CompositeState) :=
  match e.transformer with
  | .statement stmt => c.postStatement precision e.source e.target stmt s
  | .block ss => c.postBlock precision ss [s]

/-- The reached state `old` after the new state has been merged into it. States of different call
stacks are kept apart, unless the user says otherwise. -/
def merge (c : Composite) (p : Program) (new old : CompositeState) : Faulty CompositeState := do
  let stackOf (s : CompositeState) : Option Part := (c.position? .callStacks).bind (fun i => s.parts[i]?)
  let keepApart := !p.options.ignoreContext && (match stackOf new, stackOf old with
    | some a, some b => !a.equals b
    | _, _ => false)
  if keepApart then return old
  return { old with parts := ← (c.kinds.zip (new.parts.zip old.parts)).mapM (fun (k, a, b) => Part.merge p k a b) }

def partsCovered (p : Program) (reached : List CompositeState) : Nat → List (AnalysisKind × Part) → Faulty Bool
  | _, [] => .ok true
  | i, (kind, part) :: rest => do
    if ← part.isCovered p kind (reached.filterMap (fun r => r.parts[i]?)) then partsCovered p reached (i + 1) rest
    else return false

def isCovered (p : Program) (s : CompositeState) (reached : List CompositeState) : Faulty Bool :=
  if reached.isEmpty then .ok false else partsCovered p reached 0 (c.kinds.zip s.parts)

/-- The state as far as it is tracked, and the precision after it; `states` were reached at its
label. -/
def adjust (c : Composite) (states : Nat) (precision : List PartPrecision) (s : CompositeState) :
    ProgramM (CompositeState × List PartPrecision) := do
  let adjusted ← (c.kinds.zip (precision.zip s.parts)).mapM (fun (k, q, part) => part.adjust states k q)
  return ({ s with parts := adjusted.map Prod.fst }, adjusted.map Prod.snd)

end Composite

end FlowRecovery
