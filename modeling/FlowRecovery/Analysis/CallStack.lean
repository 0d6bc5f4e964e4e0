import FlowRecovery.Domain.State
import FlowRecovery.Program.Basic

/-!
# Call stacks

A call stack lists the labels that calls return to, innermost first. A call that is on the stack
already cuts the stack back to it, so that stacks stay finite. Several stacks join to `any`.
-/

namespace FlowRecovery

/-- The calls that are open. -/
inductive CallStack where
  | any
  | stack (labels : List Label)
  deriving DecidableEq

namespace CallStack

/-- Opens a call: the label to return to is put on the part of the stack below it. -/
def push (l : Label) (labels : List Label) : List Label :=
  l :: (labels.reverse.takeWhile (fun x => x != l)).reverse

def returnLabel (p : Program) (a : Int64) (source : PlacedJump) : Faulty Label :=
  match p.instructions[a]? with
  | some i => .ok ⟨a + Int64.ofNat i.size, 0⟩
  | none =>
    match source.next with
    | some l => .ok l
    | none => .error .absent

def jump (p : Program) (a : Int64) (source : PlacedJump) (labels : List Label) : Faulty (List Label) := do
  if source.jump.kind = .ret then return labels.tail
  match p.harness with
  | none => throw .absent
  | some h =>
    if h.contains a then
      match h.following a with
      | some next => return ⟨next, 0⟩ :: labels
      | none => throw .absent
    else if source.jump.kind = .call then return push (← returnLabel p a source) labels
    else return labels

def post (p : Program) (s : Stmt) : CallStack → Faulty CallStack
  | any => .ok any
  | stack labels =>
    match s.effect with
    | .assume _ source =>
      match s.label with
      | some l => do return stack (← jump p l.address source labels)
      | none => .error .absent
    | _ => .ok (stack labels)

/-- The numbers that expressions may have: only the return address is known. -/
def project (p : Program) (c : CallStack) (es : List Expr) : Option Projection :=
  match c, es with
  | stack labels, [condition, target] =>
    if condition.equals .tt && target.equals (.var p.arch.special.returnAddress) then
      labels.head?.map (fun l => [[some .tt, some (Num.of l.address 32)]])
    else some [es.map (fun _ => none)]
  | _, _ => some [es.map (fun _ => none)]

def join (c d : CallStack) : CallStack := if c = d && c ≠ any then c else any

def lessOrEqual (c d : CallStack) : Bool := d = any || d = c

def text : CallStack → String
  | any => "Call stack: null"
  | stack labels => "Call stack: [" ++ ", ".intercalate (labels.map Label.text) ++ "]"

end CallStack

end FlowRecovery
