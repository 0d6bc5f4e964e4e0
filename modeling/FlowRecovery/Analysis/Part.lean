import FlowRecovery.Analysis.Address.Adjustment
import FlowRecovery.Analysis.CallStack
import FlowRecovery.Analysis.Constants
import FlowRecovery.Analysis.Edge
import FlowRecovery.Analysis.Substitution
import FlowRecovery.Analysis.Trace
import FlowRecovery.Analysis.Valuations

/-!
# Analyses and their states

An analysis describes the states of a program at a location by a `Part` of a whole description;
several analyses run side by side. Each kind of analysis says where it starts (`start`), what a
statement does (`post`), how a new state changes a state that was reached before (`merge`), when a
state adds nothing to those that were reached (`isCovered`), and how its precision is adjusted
(`adjust`).
-/

namespace FlowRecovery

/-- The kinds of analyses. -/
inductive AnalysisKind where
  | addresses
  | countedAddresses
  | basedConstants
  | constants
  | sets
  | intervals
  | substitution
  | callStacks
  | definitions
  | anything
  | procedures
  | replay (trace : Trace)
  deriving DecidableEq

def AnalysisKind.isExplicit : AnalysisKind → Bool
  | .callStacks | .definitions | .anything | .procedures => false
  | _ => true

def AnalysisKind.ofLetter? : Char → Option AnalysisKind
  | 'x' => some addresses
  | 'v' => some countedAddresses
  | 'b' => some basedConstants
  | 'c' => some constants
  | 'k' => some sets
  | 'i' => some intervals
  | 'f' => some substitution
  | 's' => some callStacks
  | 'r' => some definitions
  | 'd' => some anything
  | 'o' => some procedures
  | _ => none

/-- What one analysis knows. -/
inductive Part where
  | tracked (t : Option Tracked)
  | constants (s : Constants)
  | sets (m : MachineState KSet)
  | intervals (m : MachineState Interval)
  | substitution (s : Substitution)
  | callStack (c : CallStack)
  | definitions (isThere : Bool)
  | anything
  | procedures (entries : List Label)
  | replay (point : TracePoint)

/-- How precise one analysis is at a location. -/
inductive PartPrecision where
  | fixed
  | levels (p : Precision)
  | counted (p : CountedPrecision)

namespace Part

def start (arch : Architecture) (l : Label) : AnalysisKind → Part
  | .addresses | .countedAddresses | .basedConstants => tracked (some {})
  | .constants => constants (.initial arch)
  | .sets => sets {}
  | .intervals => intervals {}
  | .substitution => substitution {}
  | .callStacks => callStack (.stack [])
  | .definitions => definitions true
  | .anything => anything
  | .procedures => procedures [l]
  | .replay t => replay { trace := t }

/-- The precision that an analysis starts with at a location. Repeated string instructions may get a
higher one. -/
def startPrecision (l : Label) : AnalysisKind → ProgramM PartPrecision
  | .addresses => do
    let program ← get
    let p : Precision := { threshold := program.options.valueThreshold }
    if program.options.repeatBoost then
      match ← Program.instructionAt l.address with
      | some i =>
        if i.modifiers.repeatEqual || i.modifiers.repeatDifferent then
          let boosted := ["ecx", "esi", "edi"].filterMap program.arch.vars.find?
          return .levels { p with boosted := boosted.map (fun v => (v, 1000)) }
      | none => pure ()
    return .levels p
  | .countedAddresses => return .counted { location := l }
  | .basedConstants => return .levels { threshold := 1 }
  | _ => return .fixed

/-! ### Order -/

def allIn (ls ms : List Label) : Bool := ls.all ms.contains

def equals : Part → Part → Bool
  | tracked none, tracked none => true
  | tracked (some t), tracked (some u) => t.equals u
  | constants s, constants t => s.equals t
  | sets m, sets n => m.equals n
  | intervals m, intervals n => m.equals n
  | substitution s, substitution t => s.equals t
  | callStack c, callStack d => c == d
  | definitions a, definitions b => a == b
  | anything, anything => true
  | procedures ls, procedures ms => ls.length == ms.length && allIn ls ms
  | replay p, replay q => p.equals q
  | _, _ => false

def join (p : Program) : Part → Part → Faulty Part
  | tracked none, tracked u => .ok (tracked u)
  | tracked t, tracked none => .ok (tracked t)
  | tracked (some t), tracked (some u) => do return tracked (some (← t.join p.addressSetting u))
  | constants s, constants t => do return constants (← s.join p t)
  | sets m, sets n => do return sets (← m.join (KSet.setting p) n)
  | intervals m, intervals n => do return intervals (← m.join (Interval.setting p) n)
  | substitution s, substitution t => .ok (substitution (s.join t))
  | callStack c, callStack d => .ok (callStack (c.join d))
  | definitions true, definitions _ => .ok (definitions false)
  | definitions false, _ => .error .absent
  | anything, anything => .ok anything
  | procedures ls, procedures ms => .ok (procedures (ms ++ ls.filter (fun l => !ms.contains l)))
  | replay _, _ => .error (.unsupported none)
  | _, _ => .error .wrongKind

def lessOrEqual (p : Program) : Part → Part → Faulty Bool
  | tracked none, tracked _ => .ok true
  | tracked (some _), tracked none => .ok false
  | tracked (some t), tracked (some u) => t.lessOrEqual p.addressSetting u
  | constants s, constants t => s.lessOrEqual p t
  | sets m, sets n => m.lessOrEqual (KSet.setting p) n
  | intervals m, intervals n => m.lessOrEqual (Interval.setting p) n
  | substitution s, substitution t => .ok (s.lessOrEqual t)
  | callStack c, callStack d => .ok (c.lessOrEqual d)
  | definitions true, definitions _ => .ok false
  | definitions false, _ => .error .absent
  | anything, anything => .ok true
  | procedures ls, procedures ms => .ok (allIn ls ms)
  | replay p, replay q => .ok (p.lessOrEqual q)
  | _, _ => .error .wrongKind

def text : Part → Faulty String
  | tracked none => .ok "BOT"
  | tracked (some t) => t.text
  | constants s => .ok s.text
  | sets m => m.text
  | intervals m => m.text
  | substitution s => .ok s.text
  | callStack c => .ok c.text
  | definitions true => .ok "Implement me!"
  | definitions false => .error .absent
  | anything => .ok "anything"
  | procedures ls => .ok (if ls.isEmpty then "[BOT]" else "[" ++ ", ".intercalate (ls.map Label.text) ++ "]")
  | replay p => .ok p.text

/-! ### Numbers -/

/-- The numbers that expressions may have together; nothing if the part says nothing about them. -/
def project (part : Part) (es : List Expr) : ProgramM (Option Projection) := do
  match part with
  | tracked none => return some []
  | tracked (some t) => return some (← t.project es)
  | constants s => return some (← s.project es)
  | sets m => return some (← m.project (KSet.setting (← get)) es)
  | intervals m => return some (← m.project (Interval.setting (← get)) es)
  | substitution s => return some (← s.project es)
  | callStack c => return c.project (← get) es
  | definitions true => return none
  | definitions false => throw .absent
  | anything =>
    let numbers := es.filterMap Num.ofExpr?
    return if numbers.length = es.length then some [numbers.map some] else none
  | procedures _ | replay _ => return none

/-- The numbers that expressions are known to have had together; nothing if no run is known. -/
def witness (part : Part) (es : List Expr) : Faulty (Option Projection) :=
  match part with
  | replay p => p.witness es
  | _ => .ok none

def isWitnessed : Part → Bool
  | replay p => !p.isLost
  | _ => false

/-! ### Operators -/

def post (precision : PartPrecision) (source target : Label) (s : Stmt) (part : Part) : ProgramM (List Part) := do
  match part with
  | tracked none => return [part]
  | tracked (some t) =>
    match precision with
    | .levels p => return (← t.post p s).map tracked
    | .counted p => return (← t.postCounted p s source target).map tracked
    | .fixed => throw .wrongKind
  | constants c => return (← c.post s).toList.map constants
  | sets m => return [sets (← KSet.post (KSet.setting (← get)) s m)]
  | intervals m => do
    let program ← get
    return [intervals (← Interval.post program.arch (Interval.setting program) s m)]
  | substitution x => return [substitution (← x.post (← get).arch.vars s)]
  | callStack c => return [callStack (← c.post (← get) s)]
  | definitions _ => return [part]
  | anything => return [part]
  | procedures _ =>
    match s.effect with
    | .assume _ jump =>
      match jump.jump.kind with
      | .call =>
        modify (fun program => { program with findings := program.findings.addCall source target })
        return [procedures [target]]
      | .ret => return [procedures []]
      | _ => return [part]
    | _ => return [part]
  | replay p =>
    let program ← get
    return [replay (p.post (fun a => (program.imageAt? a).isSome) source target s)]

def strengthen (p : Program) (others : List Part) : Part → Faulty Part
  | intervals m => do
    let known := others.flatMap (fun
      | tracked (some t) => t.vars.toList
      | _ => [])
    return intervals (← Interval.strengthen (Interval.setting p) known m)
  | part => .ok part

/-- The reached part `old` after the new part has been merged into it. -/
def merge (p : Program) (kind : AnalysisKind) (new old : Part) : Faulty Part := do
  match kind with
  | .addresses | .countedAddresses => if ← old.lessOrEqual p new then return new else return old
  | .basedConstants | .constants | .sets | .substitution | .procedures => old.join p new
  | .intervals =>
    match new, old with
    | intervals towards, intervals m => return intervals (← Interval.merge (Interval.setting p) towards m)
    | _, _ => throw .wrongKind
  | .callStacks | .definitions | .anything => return old
  | .replay _ =>
    match old with
    | replay p => return if p.isLost then new else old
    | _ => throw .wrongKind

def isBelowSome (p : Program) (part : Part) : List Part → Faulty Bool
  | [] => .ok false
  | q :: qs => do if ← part.lessOrEqual p q then return true else part.isBelowSome p qs

def isCovered (p : Program) (kind : AnalysisKind) (part : Part) (reached : List Part) : Faulty Bool := do
  match kind with
  | .sets | .intervals =>
    match reached with
    | [] => return false
    | q :: qs => part.lessOrEqual p (← qs.foldlM (fun r x => r.join p x) q)
  | .definitions => return true
  | _ => part.isBelowSome p reached

/-- The part as far as it is tracked, and the precision after it; `states` were reached at the
location. -/
def adjust (states : Nat) (kind : AnalysisKind) (precision : PartPrecision) (part : Part) :
    ProgramM (Part × PartPrecision) := do
  match kind, precision, part with
  | .addresses, .levels p, tracked t =>
    let (t, p) ← Tracked.adjust states p t
    return (tracked t, .levels p)
  | .countedAddresses, .counted p, tracked (some t) =>
    let (t, p) ← t.adjustCounted states p
    return (tracked (some t), .counted p)
  | _, _, _ => return (part, precision)

end Part

end FlowRecovery
