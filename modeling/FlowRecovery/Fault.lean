/-!
# Faults

An operation of this library that cannot give a result says why. `Fault` lists the causes, so that
callers can tell them apart; the texts that belong to a cause travel with it. Operations that change
a state before they fail are written in `FaultyM`.
-/

namespace FlowRecovery

/-- What is wrong with a text that should be a number. -/
inductive NumeralProblem where
  | empty
  | misplacedSign
  /-- The text of digits, with its sign, is no number of the base, or the number is too large. -/
  | digits (text : String) (base : Nat)
  deriving DecidableEq

/-- What is wrong with bytes that should be a text. -/
inductive EncodingProblem where
  | badStart (position : Nat) (byte : UInt8)
  /-- The bytes from a position on start a character, but the byte after `count` of them does not go
  on with it. -/
  | badContinuation (position count : Nat) (byte : UInt8)
  | cutOff (position count : Nat) (byte : UInt8)
  deriving DecidableEq, Inhabited

/-- Why an operation gives no result. -/
inductive Fault where
  | violated (detail : Option String)
  | absent
  | wrongKind
  | outsideArray
  | outsideList
  | outsideText
  | noElement
  | divisionByZero
  | malformedNumber
  | malformedNumeral (problem : NumeralProblem)
  | outsideParts (index count : Nat)
  | tooDeep
  | failure (detail : Option String)
  | unsupported (detail : Option String)
  | illegalState (detail : Option String)
  | illegalArgument (detail : Option String)
  | typeMismatch (detail : String)
  /-- The statements of an instruction do not have the bit widths that their places ask for. -/
  | illTyped (detail : String)
  | lexical (detail : String)
  | misplaced (detail : String)
  | meaningless (detail : String)
  | undefined (detail : String)
  | undecodable (detail : String)
  | unreadable
  | unrecognized
  | negativeSize
  | assertionViolated (detail : String)
  | unknownPointer (detail : String)
  | unresolvable (detail : String)
  /-- Recorded runs are to be followed, but none is given. -/
  | unrecorded
  | unmade
  | missingRecording (name : String)
  | unknownKey
  | unframed
  | misencoded (problem : EncodingProblem)
  | disconnected
  | unattended
  | unbound (name : String)
  deriving DecidableEq

/-- A result, or why there is none. -/
abbrev Faulty : Type → Type := Except Fault

/-- Works on a state of type `W`. What was changed before a fault stays changed. -/
abbrev FaultyM (W : Type) := ExceptT Fault (StateM W)

def FaultyM.focus {V W α : Type} (part : W → V) (put : V → W → W) (a : FaultyM V α) : FaultyM W α := do
  let w ← get
  let (r, v) := a.run.run (part w)
  set (put v w)
  match r with
  | .ok x => return x
  | .error f => throw f

end FlowRecovery
