import FlowRecovery.Domain.State
import FlowRecovery.Numeral
import FlowRecovery.Program.Basic

/-!
# Recorded runs

A recorded run lists the addresses that were executed one after the other. `Trace` keeps which
address followed which one, as far as the program itself is concerned. Following a trace along the
edges of the program gives a `TracePoint`: the recorded address that the run is at, or nothing if
the run has left the trace. What a trace says about a jump is certain, but it is not all that may
happen.
-/

namespace FlowRecovery

/-- Which addresses followed which one in a recorded run. -/
structure Trace where
  successors : List (Int64 × List Int64) := []
  deriving DecidableEq

variable (isProgram : Int64 → Bool)

namespace Trace

def next (t : Trace) (a : Int64) : List Int64 := (t.successors.lookup a).getD []

def contains (t : Trace) (a : Int64) : Bool := (t.successors.lookup a).isSome

def insert (t : Trace) (a b : Int64) : Trace :=
  let after := t.next a
  { successors := Scatter.put t.successors a (if after.contains b then after else after ++ [b]) }

def positionFrom (c : Char) (offset : Nat) (cs : List Char) : Option Nat :=
  ((cs.drop offset).findIdx? (· == c)).map (offset + ·)

/-- The address on a line: up to a colon, or in the tenth column up to a tabulator. -/
def addressOn (line : String) : Faulty Int64 := do
  let cs := line.toList
  let digits (start : Nat) (stop : Option Nat) : Faulty Int64 :=
    match stop with
    | none => .error .outsideText
    | some stop =>
      match Numeral.parse 16 64 (String.ofList ((cs.take stop).drop start)) with
      | some n => .ok (Int64.ofInt n)
      | none => .error .malformedNumber
  match cs with
  | [] => throw .outsideText
  | 'A' :: _ => digits 9 (positionFrom '\t' 9 cs)
  | _ => digits 0 (positionFrom ':' 0 cs)

/-- A trace that is being read. -/
structure Reading where
  trace : Trace := {}
  lastLine : Option String := none
  lastAddress : Option Int64 := none

def Reading.step (r : Reading) (line : String) : Faulty Reading := do
  let a ← addressOn line
  if r.lastLine = some line then return r
  let r := { r with lastLine := some line }
  match r.lastAddress with
  | some b =>
    if isProgram b || isProgram a then return { r with trace := r.trace.insert b a, lastAddress := some a } else return r
  | none => return if isProgram a then { r with lastAddress := some a } else r

def read (lines : List String) : Faulty Trace := do
  return (← lines.foldlM (Reading.step isProgram) {}).trace

end Trace

/-- Where a run is on a trace; nothing if it has left it. -/
structure TracePoint where
  trace : Trace
  address : Option Int64 := none

namespace TracePoint

def nowhere : Int64 := 0xF0000B07

variable (p : TracePoint)

def place : Int64 := p.address.getD nowhere

def isLost : Bool := p.address.isNone

def equals (p q : TracePoint) : Bool := p.place == q.place

def lessOrEqual (p q : TracePoint) : Bool := p.isLost || p.equals q

def isRepetition (s : Stmt) : Bool :=
  match s.effect with
  | .assume _ source => source.jump.kind == .repeated
  | _ => false

/-- The point after an edge. Steps outside of the program are not on the trace: the trace goes on at
the place to which the run returns, if it is the only one. -/
def post (source target : Label) (s : Stmt) (p : TracePoint) : TracePoint :=
  let lost : TracePoint := { p with address := none }
  if !isProgram source.address && !isProgram target.address then p
  else if target.address == p.place && !isRepetition s then p
  else if p.trace.contains target.address then { p with address := some target.address }
  else if isProgram target.address || p.isLost then lost
  else
    match p.trace.next source.address with
    | [a] => { p with address := some a }
    | _ => lost

/-- The condition and target of a jump that a trace shows; nothing if the run has left it. -/
def witness (es : List Expr) : Faulty (Option Projection) :=
  match p.address, es with
  | some a, [condition, target] => do
    let decide (successor : Int64) : Faulty (List (Option Num)) := do
      let next := Num.of successor 32
      match Num.ofExpr? target, Num.ofExpr? condition with
      | some t, some c => return [some c, some t]
      | some t, none => return [some (if t = next then .tt else .ff), some t]
      | none, some c => return [some c, some next]
      | none, none => throw (.violated (some "There should be no conditional indirect jumps in x86!"))
    return some (← (p.trace.next a).mapM decide).eraseDups
  | _, _ => .ok none

def text : String :=
  match p.address with
  | none => "Trace@BOT"
  | some a => "Trace@" ++ addressText a ++ ": Next: [" ++ ", ".intercalate ((p.trace.next a).map addressText) ++ "]"

end TracePoint

end FlowRecovery
