import FlowRecovery.Domain.State
import FlowRecovery.Options.CommandLine
import FlowRecovery.Query.Images

/-!
# Queries about memory and machine states

Steps work on memories or machine states in named places, which are empty at first. States that were
joined may share their variables with one of the two, so that a later write to one shows in the
other.
-/

namespace FlowRecovery.Query

/-! ### Values of a domain -/

/-- A domain whose values can be read and written. -/
class Coded (A : Type) where
  ofAbstract? : Abstract → Option A
  encode : A → Value

instance : Coded Constant where
  ofAbstract?
    | .constant c => some c
    | _ => none
  encode := encodeConstant

instance : Coded Based where
  ofAbstract?
    | .based b => some b
    | _ => none
  encode := encodeBased

instance : Coded KSet where
  ofAbstract?
    | .kset s => some s
    | _ => none
  encode := encodeKSet

instance : Coded Interval where
  ofAbstract?
    | .interval i => some i
    | _ => none
  encode := encodeInterval

def decodeIn (A : Type) [Coded A] (v : Value) : Answer A := do
  match Coded.ofAbstract? (← decodeAbstract v) with
  | some a => return a
  | none => refuse .wrongKind

def valueAt {A : Type} [Coded A] (vs : List Value) (n : Nat) : Answer A := do decodeIn A (← element vs n)

def encodeAllIn {A : Type} [Coded A] (as : List A) : Value := .sorted (as.map Coded.encode)

/-! ### Memory -/

/-- A run of bytes that belong to the same cell. -/
structure Run (A : Type) where
  first : Int64
  length : Nat
  cell : Cell A

def runs {A : Type} [AbstractValue A] [Coded A] : List (Int64 × Cell A) → List (Run A)
  | [] => []
  | (o, c) :: rest =>
    match runs rest with
    | [] => [⟨o, 1, c⟩]
    | r :: rs =>
      if r.first == o + 1 && r.cell.offset == c.offset && r.cell.size == c.size &&
          (Coded.encode r.cell.contents).compact == (Coded.encode c.contents).compact then ⟨o, r.length + 1, c⟩ :: rs
      else ⟨o, 1, c⟩ :: r :: rs

def regionName (r : Region) : String :=
  match encodeRegion r with
  | .text s => s
  | _ => ""

def encodeMemory {A : Type} [AbstractValue A] [Coded A] (m : Memory A) : Value :=
  let rows := m.cells.rows.mergeSort (fun a b =>
    Value.unitsLe (Value.units (regionName a.1)) (Value.units (regionName b.1)))
  .record [("dataIsTop", m.dataIsTop), ("cells", .list (rows.flatMap (fun (r, row) =>
    (runs row.toList).map (fun run => .list [encodeRegion r, run.first, .nat run.length, run.cell.offset,
      run.cell.size, Coded.encode run.cell.contents]))))]

def memoryDigest {A : Type} [AbstractValue A] [Coded A] (m : Memory A) : UInt32 :=
  m.digest (fun r => (hash r).toUInt32) (fun a => (hash (Coded.encode a).compact).toUInt32)

/-! ### Options -/

def setOption (o : Options) (name : String) (v : Value) : Answer Options := do
  match choiceNamed name with
  | none => malformed ("unknown option " ++ name)
  | some c =>
    match c.field with
    | .flag _ set => return set (← v.toBool) o
    | .number _ set => return set (← v.toInt32) o
    | .address _ set => return set (← v.toInt64) o
    | .text _ set => return set (← v.toText) o

def optionsField (query : Value) : Answer Options :=
  match query.field? "opts" with
  | some (.record fs) => fs.foldlM (fun o (name, v) => setOption o name v) { verbosity := -1 }
  | _ => .ok { verbosity := -1 }

def surroundings (query : Value) : Answer Surroundings := do
  return (← queryProgram query (← optionsField query)).surroundings

/-! ### Steps on memory -/

/-- How the values of a domain are used as addresses. -/
structure Addressing (A : Type) where
  readStore : Setting A → Memory A → Int → A → Faulty A
  readStoreAll : Setting A → Memory A → Int → A → Faulty (List A)
  writeStore : Setting A → Int → A → A → Update A Unit

def addressing (A : Type) [AddressValue A] : Addressing A :=
  ⟨AddressValue.readStore, AddressValue.readStoreAll, AddressValue.writeStore⟩

def noAddressing (A : Type) : Addressing A :=
  ⟨fun _ _ _ _ => .error .wrongKind, fun _ _ _ _ => .error .wrongKind, fun _ _ _ _ => throw .wrongKind⟩

def memoryNamed {A : Type} (slots : Slots (Memory A)) (name : String) : Memory A := (slots.lookup name).getD {}

/-- A memory step: its answer, and the places after it. Regions that are marked in the step, or were
before, stand for several blocks. -/
def memoryStep {A : Type} [AbstractValue A] [Coded A] (s : Setting A) (access : Addressing A)
    (slots : Slots (Memory A)) (step : Value) : Answer (Value × Slots (Memory A)) := do
  let vs ← step.elements
  let text := textAt vs
  let region := regionAt vs
  let int := intAt vs
  let long := longAt vs
  let value : Nat → Answer A := valueAt vs
  let kind ← text 0
  let name ← text 1
  let m := memoryNamed slots name
  let slots := if (slots.lookup name).isSome then slots else slots.put name m
  let answered (v : Value) : Answer (Value × Slots (Memory A)) := .ok (v, slots)
  let made (into : String) (m : Memory A) : Answer (Value × Slots (Memory A)) := .ok (encodeMemory m, slots.put into m)
  let changed (u : Update A Unit) : Answer (Value × Slots (Memory A)) :=
    match u.run.run m with
    | (.ok (), m) => made name m
    | (.error f, m) => .ok (.fault f, slots.put name m)
  let asked (r : Answer Value) : Answer (Value × Slots (Memory A)) := do return (← settle r, slots)
  match kind with
  | "get" =>
    let (r, o, w) := (← region 2, ← long 3, ← int 4)
    asked (do return Coded.encode (← m.read s r o w))
  | "read" =>
    let w ← int 3
    asked (do return Coded.encode (← access.readStore s m w (← value 2)))
  | "readset" =>
    let w ← int 3
    asked (do return encodeAllIn (← access.readStoreAll s m w (← value 2)))
  | "leq" => asked (do return (← m.lessOrEqual s (memoryNamed slots (← text 2)) : Bool))
  | "eq" =>
    let n := memoryNamed slots (← text 2)
    let e := m.equals n
    answered (.list [e, (!e || memoryDigest m == memoryDigest n : Bool)])
  | "info" => answered (.record [("top", m.isTop), ("bot", false)])
  | "set" => changed (Memory.write s (← region 2) (← long 3) (← int 4) (← value 5))
  | "weak" => changed (Memory.weakWrite s (← region 2) (← long 3) (← int 4) (← value 5))
  | "write" => changed (access.writeStore s (← int 3) (← value 2) (← value 4))
  | "top" => changed (Memory.setTop s)
  | "topregion" => changed (Memory.setRegionTop s (← region 2))
  | "memcpy" => changed (Memory.copy s (← region 2) (← long 3) (← region 4) (← long 5) (← long 6))
  | "forget" => made name (m.forgetStackBelow (← long 2))
  | "copy" => made (← text 2) m
  | "join" =>
    match m.join s (memoryNamed slots (← text 2)) with
    | .ok j => made (← text 3) j
    | .error f => answered (.fault f)
  | t => malformed ("unknown step " ++ t)

def runMarked {σ : Type} (steps : List Value) (init : σ)
    (step : (Region → Bool) → σ → Value → Answer (Value × σ)) : Answer Value := do
  let (rs, _) ← runSteps steps (([] : List Region), init) (fun (marked, slots) v => do
    let marked := marked ++ markedRegions v
    match step (fun r => r.isSite || marked.contains r) slots v with
    | .ok (r, slots) => return (r, marked, slots)
    | .error (.fault f) => return (.fault f, marked, slots)
    | .error e => throw e)
  return .list rs

def memoriesOf {A : Type} [AbstractValue A] [Coded A] (s : Setting A) (access : Addressing A) (steps : List Value) :
    Answer Value :=
  runMarked steps ([] : Slots (Memory A)) (fun isSummary => memoryStep { s with isSummary } access)

def memories (query : Value) : Answer Value := do
  let around ← surroundings query
  let steps ← query.listField "steps"
  let k := wrap32 (← query.intField "k" 3)
  match ← query.textField "domain" "" with
  | "interval" => memoriesOf { around with factory := Interval.factory } (addressing Interval) steps
  | "number" => memoriesOf { around with factory := Constant.factory } (noAddressing Constant) steps
  | "based" => memoriesOf { around with factory := Based.factory } (addressing Based) steps
  | "kset" => memoriesOf { around with factory := KSet.factory k } (addressing KSet) steps
  | d => malformed ("unknown domain " ++ d)

/-! ### Steps on machine states -/

/-- The places of machine states: each has a memory of its own, and variables that it may share. -/
structure Shelf (A : Type) where
  valuations : List (Valuation A) := []
  memories : List (Memory A) := []
  places : Slots (Nat × Nat) := []

namespace Shelf

variable {A : Type} [AbstractValue A] (shelf : Shelf A) (name : String)

def state : MachineState A :=
  match shelf.places.lookup name with
  | some (v, m) => { vars := (shelf.valuations[v]?).getD {}, memory := (shelf.memories[m]?).getD {} }
  | none => {}

def add (s : MachineState A) : Shelf A where
  valuations := shelf.valuations ++ [s.vars]
  memories := shelf.memories ++ [s.memory]
  places := shelf.places.put name (shelf.valuations.length, shelf.memories.length)

def ensure : Shelf A :=
  if (shelf.places.lookup name).isSome then shelf else shelf.add name {}

def change (s : MachineState A) : Shelf A :=
  match shelf.places.lookup name with
  | some (v, m) => { shelf with valuations := shelf.valuations.set v s.vars, memories := shelf.memories.set m s.memory }
  | none => shelf

/-- Puts the join of two states on the shelf. It shares the variables of one of them, if no variable
of that one is known, and is one of them, if nothing is known of that one. -/
def addJoin (a b into : String) (j : MachineState A) : Shelf A :=
  let (s, t) := (shelf.state a, shelf.state b)
  let isTop (s : MachineState A) : Bool := s.vars.isTop && s.memory.isTop
  let place (name : String) : Nat × Nat := (shelf.places.lookup name).getD (0, 0)
  if isTop s then { shelf with places := shelf.places.put into (place a) }
  else if isTop t then { shelf with places := shelf.places.put into (place b) }
  else
    let made := shelf.add into j
    let memory := shelf.memories.length
    if s.vars.isTop then { made with places := shelf.places.put into ((place a).1, memory) }
    else if t.vars.isTop then { made with places := shelf.places.put into ((place b).1, memory) }
    else made

end Shelf

def encodeState {A : Type} [AbstractValue A] [Coded A] (m : MachineState A) : Value :=
  .record [("vars", .record (m.vars.toList.map (fun (x, a) => (x.name, Coded.encode a)))),
    ("mem", encodeMemory m.memory)]

def encodeProjection (p : Projection) : Value :=
  .sorted (p.map (fun t => .list (t.map (fun
    | some n => encodeNum n
    | none => "ANY"))))

def stateStep {A : Type} [AddressValue A] [Coded A] (s : Setting A) (shelf : Shelf A) (step : Value) :
    Answer (Value × Shelf A) := do
  let vs ← step.elements
  let text := textAt vs
  let region := regionAt vs
  let int := intAt vs
  let long := longAt vs
  let value : Nat → Answer A := valueAt vs
  let expr (n : Nat) : Answer Expr := do decodeExpr (← element vs n)
  let kind ← text 0
  let name ← text 1
  let shelf := shelf.ensure name
  let m := shelf.state name
  let asked (r : Answer Value) : Answer (Value × Shelf A) := do return (← settle r, shelf)
  let changed (m : MachineState A) : Answer (Value × Shelf A) := .ok (encodeState m, shelf.change name m)
  let updated (u : Update A Unit) : Answer (Value × Shelf A) :=
    match m.update u with
    | (m, .ok ()) => changed m
    | (m, .error f) => .ok (.fault f, shelf.change name m)
  match kind with
  | "getvar" =>
    let x ← variableNamed (← text 2)
    asked (do return Coded.encode (← m.vars.get s x))
  | "getmem" =>
    let w ← int 3
    asked (do return Coded.encode (← AddressValue.readStore s m.memory w (← value 2)))
  | "getat" => asked (do return Coded.encode (← m.memory.read s (← region 2) (← long 3) (← int 4)))
  | "eval" => asked (do return Coded.encode (← m.eval s (← expr 2)))
  | "evalset" => asked (do return encodeAllIn (← m.evalAll s (← expr 2)))
  | "project" => asked (do return encodeProjection (← m.project s (← (vs.drop 2).mapM decodeExpr)))
  | "leq" => asked (do return (← m.lessOrEqual s (shelf.state (← text 2)) : Bool))
  | "eq" =>
    let n := shelf.state (← text 2)
    let e := m.equals n
    asked (.ok (.list [e, (!e || memoryDigest m.memory == memoryDigest n.memory : Bool)]))
  | "info" => asked (.ok (.record [("top", m.isTop), ("bot", false)]))
  | "location" =>
    refuse (.unsupported (some "ValuationState does not contain location information."))
  | "setvar" =>
    let x ← variableNamed (← text 2)
    changed (← m.setVar s x (← value 3))
  | "setmem" => updated (AddressValue.writeStore s (← int 3) (← value 2) (← value 4))
  | "setat" => updated (Memory.write s (← region 2) (← long 3) (← int 4) (← value 5))
  | "copy" => return (encodeState m, shelf.add (← text 2) m)
  | "join" =>
    let other ← text 2
    let shelf := shelf.ensure other
    let into ← text 3
    let j ← m.join s (shelf.state other)
    return (encodeState j, shelf.addJoin name other into j)
  | t => malformed ("unknown step " ++ t)

def machineStates (query : Value) : Answer Value := do
  let around ← surroundings query
  let steps ← query.listField "steps"
  let k := wrap32 (← query.intField "k" 3)
  match ← query.textField "domain" "" with
  | "interval" =>
    runMarked steps ({} : Shelf Interval)
      (fun isSummary => stateStep { around with factory := Interval.factory, isSummary })
  | "based" =>
    runMarked steps ({} : Shelf Based) (fun isSummary => stateStep { around with factory := Based.factory, isSummary })
  | "kset" =>
    runMarked steps ({} : Shelf KSet) (fun isSummary => stateStep { around with factory := KSet.factory k, isSummary })
  | d => malformed ("unknown domain " ++ d)

end FlowRecovery.Query
