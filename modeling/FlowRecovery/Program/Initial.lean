import FlowRecovery.Domain.Memory
import FlowRecovery.Program.Basic

/-!
# The data that a program starts with

The images of a program hold initial data. Data that may have been overwritten counts only where it
is read-only.
-/

namespace FlowRecovery.Program

def initialNumber (p : Program) (overwritten : Bool) (a : Int64) (width : Int) : Faulty (Option Num) :=
  match p.imageAt? a with
  | none => .ok none
  | some i =>
    if overwritten && !i.isReadOnly a then .ok none
    else match i.readNumber a width with
      | .ok v => .ok (v.map (Num.of · width))
      | .error .unreadable => .ok none
      | .error f => .error f

def surroundings (p : Program) : Surroundings :=
  { options := p.options, registers := p.arch.vars, initial := p.initialNumber }

end FlowRecovery.Program
