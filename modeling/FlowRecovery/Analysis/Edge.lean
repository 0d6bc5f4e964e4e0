import FlowRecovery.Stmt.Basic

/-!
# Edges of control flow

An edge leads from a label to a label and says what happens on the way. An edge that may be taken is
known from an over-approximation of the program; an edge that must be there was seen in a run.
-/

namespace FlowRecovery

/-- How sure an edge is. -/
inductive EdgeKind where
  | may | must
  deriving DecidableEq

namespace EdgeKind

def join : EdgeKind → EdgeKind → EdgeKind
  | k, may => k
  | _, must => must

def lessOrEqual (a b : EdgeKind) : Bool := a == may || b == must

def name : EdgeKind → String
  | may => "MAY"
  | must => "MUST"

end EdgeKind

/-- What happens on an edge. -/
inductive Transformer where
  | statement (s : Stmt)
  | block (ss : List Stmt)
  deriving Inhabited

namespace Transformer

def statements : Transformer → List Stmt
  | statement s => [s]
  | block ss => ss

end Transformer

/-- An edge of control flow. -/
structure Edge where
  source : Label
  target : Label
  transformer : Transformer
  kind : EdgeKind := .may
  deriving Inhabited

namespace Edge

def between (source target : Option Label) (t : Transformer) : Faulty Edge :=
  match source, target with
  | some s, some t' => .ok { source := s, target := t', transformer := t }
  | _, _ =>
    let name (l : Option Label) : String := (l.map Label.text).getD "null"
    .error (.violated (some ("Cannot create edge with dangling edges: " ++ name source ++ " -> " ++ name target)))

def ofStmt (s : Stmt) : Faulty Edge := between s.label s.next (.statement s)

def text (e : Edge) : String := e.source.text ++ " -" ++ e.kind.name ++ "-> " ++ e.target.text

def sameEnds (a b : Edge) : Bool := a.source == b.source && a.target == b.target

/-- Adds an edge at the end, unless there is one with the same ends. -/
def insert (es : List Edge) (e : Edge) : List Edge := if es.any (·.sameEnds e) then es else es ++ [e]

/-- The edges that start from a label. -/
def startingFrom (l : Label) (es : List Edge) : List Edge := es.filter (fun e => e.source = l)

end Edge

end FlowRecovery
