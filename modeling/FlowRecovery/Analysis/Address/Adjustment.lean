import FlowRecovery.Analysis.Address.Post

/-!
# Adjusting states to the precision of a location

Before a state is explored further, places at which too many values were met lose what is not
tracked any more, and the values that the state has left are remembered. `adjust` does this with the
precision of the location. With a virtual program counter (`adjustCounted`), the precision depends
on the value of that counter, and a place that takes many values is chosen as the counter of its
procedure.
-/

namespace FlowRecovery

variable (t : Tracked)

namespace Tracked

def widenVar (entry : Var × List Based) (work : Tracked × Precision) : ProgramM (Tracked × Precision) := do
  let (t, p) := work
  let (v, as) := entry
  match Precision.loweredLevel (p.thresholdOf v) (p.thresholdOf v) as with
  | none => return work
  | some level =>
    let old ← t.vars.get (← get).addressSetting v
    return (← t.setVar v (← level.limit v.width old), p.setLevel v level)

def widenCell (region : Region) (cell : Cell Based) (work : Tracked × Precision) : ProgramM (Tracked × Precision) := do
  let (t, p) := work
  match p.seenAt.find? region cell.offset with
  | none => return work
  | some as =>
    let threshold := p.cellThreshold (← get).options.heapThreshold region
    match Precision.loweredLevel threshold (5 * threshold) as with
    | none => return work
    | some level =>
      let width := cell.contents.width
      let a ← level.limit width cell.contents
      return (← t.change (Memory.write · region cell.offset width a), p.setCellLevel region cell.offset level)

def widen (p : Precision) : ProgramM (Tracked × Precision) := do
  let work ← p.seen.toList.foldlM (fun work entry => widenVar entry.2 work) (t, p)
  t.memory.allHeads.foldlM (fun work (region, cell) => widenCell region cell work) work

def rememberAll (p : Precision) : Precision :=
  let p := t.vars.toList.foldl (fun p (v, a) => p.remember v a) p
  t.memory.allHeads.foldl (fun p (region, cell) => p.rememberAt region cell.offset cell.contents) p

def isCrowded (o : Options) (states : Nat) : Bool := (states : Int) > min o.valueThreshold o.heapThreshold

/-- The state as far as it is tracked, and the precision after it. The state without runs becomes
one with runs only if something has to be widened. -/
def adjust (states : Nat) (p : Precision) (t : Option Tracked) : ProgramM (Option Tracked × Precision) := do
  let start := t.getD {}
  let (widened, p') ← if isCrowded (← get).options states then start.widen p else pure (start, p)
  let changed := (p.seen.toList.any (fun (_, v, as) =>
    (Precision.loweredLevel (p.thresholdOf v) (p.thresholdOf v) as).isSome)) && isCrowded (← get).options states
  match t with
  | none => if changed then return (some widened, widened.rememberAll p') else return (none, p')
  | some _ => return (some widened, widened.rememberAll p')

end Tracked

/-! ### Virtual program counters -/

/-- The precision of a location, by the value of its virtual program counter. -/
structure CountedPrecision where
  location : Label
  parts : List (Based × Precision) := []

variable (p : CountedPrecision)

namespace CountedPrecision

def part (threshold : Int) (value : Based) : Precision :=
  ((p.parts.find? (fun entry => value.equals entry.1)).map Prod.snd).getD { threshold }

def setPart (value : Based) (q : Precision) : CountedPrecision :=
  { p with parts := (value, q) :: p.parts.filter (fun entry => !value.equals entry.1) }

end CountedPrecision

namespace Tracked

def counterAt? (l : Label) : ProgramM (Option Place) := do
  let program ← get
  return if (program.imageAt? l.address).isNone then none else program.findings.counterAt? l

def counterValue : Option Place → ProgramM Based
  | none => Based.top 32
  | some (.register v) => do t.vars.get (← get).addressSetting v
  | some (.cell region offset width) => do t.memory.read (← get).addressSetting region offset width

def noteProcedures (s : Stmt) (source target : Label) (f : Findings) : Findings :=
  match s.effect with
  | .assume _ jump =>
    match jump.jump.kind with
    | .call =>
      let f := f.join target target
      match jump.next with
      | some next => f.follow source next
      | none => f
    | .ret => f
    | _ => f.follow source target
  | _ => f.follow source target

def postCounted (s : Stmt) (source target : Label) (t : Tracked) :
    ProgramM (List (Option Tracked)) := do
  modify (fun program => { program with findings := noteProcedures s source target program.findings })
  let value ← t.counterValue (← counterAt? target)
  t.post (p.part (← get).options.valueThreshold value) s

def candidates (p : Precision) : ProgramM (List (Nat × Place)) := do
  let registers := (← get).arch.registers
  let vars := p.seen.toList.filterMap (fun (_, v, as) =>
    if registers.contains v && as.length ≥ 2 && v.name != "eax" then some (as.length, Place.register v) else none)
  let cells := t.memory.allHeads.filterMap (fun (region, cell) =>
    match p.seenAt.find? region cell.offset with
    | some (a :: as) =>
      if as.length ≥ 1 then some (as.length + 1, Place.cell region cell.offset a.width) else none
    | _ => none)
  return vars ++ cells

def chooseCounter (states : Nat) (l : Label) (p : Precision) : ProgramM Unit := do
  let threshold := (← get).options.valueThreshold
  if (states : Int) > threshold then
    let found ← t.candidates p
    let most := found.foldl (fun n entry => max n entry.1) 0
    match found.find? (fun entry => entry.1 == most) with
    | some (n, place) =>
      if (n : Int) ≥ threshold then
        modify (fun program => { program with findings := program.findings.setCounter l place })
    | none => pure ()

def adjustCounted (states : Nat) (p : CountedPrecision) (t : Tracked) : ProgramM (Tracked × CountedPrecision) := do
  let threshold := (← get).options.valueThreshold
  let counter ← counterAt? p.location
  let value ← t.counterValue counter
  if counter.isNone then t.chooseCounter states p.location (p.part threshold value)
  let value ← t.counterValue (← counterAt? p.location)
  let q := p.part threshold value
  let (widened, q) ← if isCrowded (← get).options states then t.widen q else pure (t, q)
  return (widened, p.setPart value (widened.rememberAll q))

end Tracked

end FlowRecovery
