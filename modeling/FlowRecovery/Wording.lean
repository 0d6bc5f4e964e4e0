import FlowRecovery.Service.Encoding
import FlowRecovery.Session

/-!
# Faults in words

How the command line tools of this library call faults.
-/

namespace FlowRecovery

def NumeralProblem.text : NumeralProblem → String
  | .empty => "no digits"
  | .misplacedSign => "a sign between digits"
  | .digits s base => "\"" ++ s ++ "\" is no number in base " ++ toString base

namespace Fault

def kind : Fault → String
  | violated _ => "violated condition"
  | absent => "missing value"
  | wrongKind => "value of a wrong kind"
  | outsideArray | outsideList | outsideText | outsideParts .. => "index out of bounds"
  | noElement => "empty collection"
  | divisionByZero => "division by zero"
  | malformedNumber | malformedNumeral _ => "malformed number"
  | tooDeep => "nesting too deep"
  | failure _ => "failure"
  | unsupported _ => "unsupported operation"
  | illegalState _ => "illegal state"
  | illegalArgument _ => "illegal argument"
  | typeMismatch _ => "type mismatch"
  | illTyped _ => "ill-typed instruction"
  | lexical _ | misplaced _ | meaningless _ | undefined _ => "bad specification"
  | undecodable _ => "no code"
  | unreadable => "unreadable file"
  | unrecognized => "unknown file format"
  | negativeSize => "negative size"
  | assertionViolated _ => "violated assertion"
  | unknownPointer _ => "write to an unknown address"
  | unresolvable _ => "unresolved control flow"
  | unrecorded | missingRecording _ => "missing recording"
  | unmade => "analysis without its input"
  | unknownKey => "unknown key"
  | unframed => "message without a frame"
  | misencoded _ => "misencoded text"
  | disconnected => "closed connection"
  | unattended => "no connection"
  | unbound _ => "undefined name"

def detail? : Fault → Option String
  | violated d | failure d | unsupported d | illegalState d | illegalArgument d => d
  | typeMismatch d | illTyped d | lexical d | misplaced d | meaningless d | undefined d | undecodable d
  | assertionViolated d | unknownPointer d | unresolvable d => some d
  | malformedNumeral p => some p.text
  | outsideParts i n => some (toString i ++ " of " ++ toString n)
  | missingRecording n | unbound n => some n
  | misencoded p => some (Encoding.problemText p)
  | _ => none

def text (f : Fault) : String :=
  match f.detail? with
  | some d => f.kind ++ ": " ++ d
  | none => f.kind

end Fault

def Wording.plain : Wording := ⟨Fault.kind, Fault.text⟩

end FlowRecovery
