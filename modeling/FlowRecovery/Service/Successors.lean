import FlowRecovery.Service.Follower

/-!
# Successors of one instruction

`Watch` looks at an execution that is not directed, and records where it goes after the instruction
at one address. `Successors.run` is a command that asks for the successors of an instruction of a
program; there is no machine for it, so that it ends once it has read its arguments.
-/

namespace FlowRecovery

/-- An address that is watched, and the addresses found after it. -/
structure Watch where
  address : Int
  successors : List Int := []

def Watch.leave (w : Watch) (address : Int) (successors : List Int) : Watch × Journal :=
  if address = w.address then
    let found := (successors.take successorLimit).foldl (fun as a => if as.contains a then as else as ++ [a]) w.successors
    ({ w with successors := found },
      [⟨.progress, "Calculating possible targets"⟩,
        ⟨.detail, Integer.hex address ++ "->" ++ ",".intercalate (Targets.sortedTexts found)⟩])
  else (w, [])

namespace Successors

/-- How the command ends: with a code, or by a fault. -/
inductive Ending where
  | exited (code : Int)
  | failed (f : Fault)

/-- What the command leaves. -/
structure Outcome where
  ending : Ending
  output : String := ""
  journal : Journal := []

def usage : String := "Usage: Python getSuccessors.py [path to binary] [address of instruction]\n"

def journalName : String := "logger"

/-- Runs the command; its arguments start with its name. Without a journal it cannot even tell what
it does. -/
def run (hasJournal : Bool) : List String → Outcome
  | _ :: program :: address :: _ =>
    match Integer.read 16 address with
    | .error f => { ending := .failed f }
    | .ok a =>
      if hasJournal then
        { ending := .failed .absent
          journal := [⟨.progress, "Running with program=" ++ program ++ " address=" ++ Integer.hex a⟩] }
      else { ending := .failed (.unbound journalName) }
  | _ => { ending := .exited 0, output := usage }

end Successors

end FlowRecovery
