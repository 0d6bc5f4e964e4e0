import FlowRecovery.Analysis.Edge
import FlowRecovery.Numeral
import FlowRecovery.Program.Basic
import FlowRecovery.Text.Blank

/-!
# Answers about unresolved jumps

The answer about a request is a text `START…END`; between the marks there are pairs of addresses,
separated by colons. A pair says that execution came to a jump at the first address and went on at
the second one.
-/

namespace FlowRecovery.Response

/-- The parts of a text between separators. Empty parts at the end are dropped, but a text without
separators is its own only part. -/
def split (separator : Char) (s : String) : List String :=
  let parts := Text.split separator s
  match parts with
  | [p] => [p]
  | _ => (parts.reverse.dropWhile String.isEmpty).reverse

def body (s : String) : Faulty String :=
  let cs := s.toList
  if "START".toList.isPrefixOf cs && "END".toList.isSuffixOf cs then
    .ok (String.ofList ((cs.drop 5).take (cs.length - 8)))
  else .error (.violated none)

/-- The two addresses of a pair; the second one is read only after the first one was found to be
known. -/
structure Pair where
  source : Int64
  target : Faulty Int64

def Pair.parse (s : String) : Faulty Pair :=
  match split ',' s with
  | [] => .error (.outsideParts 0 0)
  | a :: rest => do
    let source ← Numeral.decode a
    return { source, target := match rest with
      | b :: _ => Numeral.decode b
      | [] => .error (.outsideParts 1 1) }

/-- What an answer says: new edges, and the places to explore again. -/
structure Found (α : Type) where
  edges : List Edge := []
  again : List α := []

/-- Adds an edge unless there is one with the same ends. -/
def addEdge (es : List Edge) (e : Edge) : List Edge := if es.any (·.sameEnds e) then es else es ++ [e]

/-- What a pair says about unresolved places. The edge starts from the last place at the address. -/
def follow {α : Type} (location : α → Label) (unresolved : List α) (found : Found α) (pair : String) :
    ProgramM (Found α) := do
  let p ← liftExcept (Pair.parse pair)
  let here := unresolved.filter (fun a => (location a).address == p.source)
  match here.getLast? with
  | none => throw (.violated none)
  | some a =>
    let target ← liftExcept p.target
    let s ← Program.statementAt (location a)
    let e : Edge := { source := location a, target := .ofAddress target, transformer := .statement s }
    return { edges := addEdge found.edges e, again := found.again ++ here }
where
  liftExcept {β : Type} (r : Faulty β) : ProgramM β :=
    match r with
    | .ok b => pure b
    | .error f => throw f

def read {α : Type} (location : α → Label) (unresolved : List α) (answer : String) : ProgramM (Found α) := do
  match body answer with
  | .error f => throw f
  | .ok text =>
    match split ':' text with
    | [] => throw (.outsideParts 0 0)
    | first :: rest =>
      if first.isEmpty then return {}
      else (first :: rest).foldlM (follow location unresolved) {}

end FlowRecovery.Response
