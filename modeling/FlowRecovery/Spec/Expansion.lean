import FlowRecovery.Spec.Registers
import FlowRecovery.Spec.Token

/-!
# Expanding specifications

`Definitions` collects what the parts of a specification define. Constants, entries of tables and
calls of functions in the body of an instruction are replaced by what they stand for, and an
instruction whose name has an entry of a table becomes one instruction for every entry.
-/

namespace FlowRecovery.Spec

/-- A function or an instruction with its parameters and its body. -/
structure Procedure where
  name : Chars
  parameters : List Chars
  body : Tree

abbrev Locals := List (Chars × Tree)

/-- What a specification defines. -/
structure Definitions where
  vars : Registers := {}
  declared : List Var := []
  constants : List (Chars × Int64) := []
  tables : List (Chars × List Tree) := []
  functions : List (Chars × Procedure) := []
  instructions : List Procedure := []

def define {α : Type} (entries : List (Chars × α)) (name : Chars) (a : α) : List (Chars × α) :=
  (name, a) :: entries.filter (fun (n, _) => n != name)

/-! ### Walking along trees -/

def misplaced (k : Kind) (ts : List Tree) : Fault :=
  let found := match ts with
    | [] => "<empty tree>"
    | t :: _ => String.ofList t.text
  .misplaced ("expecting " ++ k.label ++ ", found '" ++ found ++ "'")

def meaningless : List Tree → Fault
  | [] => .meaningless "unexpected end of subtree"
  | t :: _ => .meaningless ("unexpected AST node: " ++ String.ofList t.text)

def nextTree (k : Kind) (ts : List Tree) : Faulty (Tree × List Tree) :=
  match ts with
  | t :: rest => if t.kind == k then .ok (t, rest) else .error (misplaced k ts)
  | [] => .error (misplaced k ts)

def decimal? (text : Chars) : Option Int :=
  match text with
  | '-' :: ds => if ds.isEmpty || !ds.all Char.isDigit then none else some (-(ds.foldl step 0))
  | ds => if ds.isEmpty || !ds.all Char.isDigit then none else some (ds.foldl step 0)
where
  step (n : Int) (c : Char) : Int := n * 10 + (c.toNat - '0'.toNat)

def int32 (text : Chars) : Faulty Int :=
  match decimal? text with
  | some n => if -2147483648 ≤ n ∧ n < 2147483648 then .ok n else .error .malformedNumber
  | none => .error .malformedNumber

def int64 (text : Chars) : Faulty Int64 :=
  match decimal? text with
  | some n => if -9223372036854775808 ≤ n ∧ n < 9223372036854775808 then .ok (Int64.ofInt n) else .error .malformedNumber
  | none => .error .malformedNumber

variable (ts : List Tree)

def nextNumber : Faulty (Int × List Tree) := do
  let (t, rest) ← nextTree .num ts
  return (← int32 t.text, rest)

/-! ### Constants, tables and registers -/

def constantValue : Nat → List Tree → Faulty (Int64 × List Tree)
  | 0, _ => .error .tooDeep
  | _, [] => .error (meaningless [])
  | fuel + 1, t :: rest =>
    match t.kind with
    | .num => do return (← int64 t.text, rest)
    | .plus => do
      let (a, more) ← constantValue fuel t.children
      let (b, _) ← constantValue fuel more
      return (a + b, rest)
    | .minus => do
      let (a, more) ← constantValue fuel t.children
      let (b, _) ← constantValue fuel more
      return (a - b, rest)
    | _ => .error (meaningless (t :: rest))

def isTable (k : Kind) : Bool := k == .lcurly || k == .crossProduct || k == .quote || k == .name

mutual

def tableEntries (tables : List (Chars × List Tree)) : Nat → List Tree → Faulty (List Tree × List Tree)
  | 0, _ => .error .tooDeep
  | _, [] => .error (meaningless [])
  | fuel + 1, t :: rest =>
    match t.kind with
    | .lcurly => do
      let (h, more) ← tableEntries tables fuel t.children
      return (h ++ (← furtherEntries tables fuel more), rest)
    | .crossProduct => do
      let (h, more) ← tableEntries tables fuel t.children
      let (s, _) ← tableEntries tables fuel more
      return (s.flatMap (fun b => h.map (fun a => .node .name (a.text ++ b.text) [])), rest)
    | .quote =>
      match t.children with
      | [] => .error (.misplaced "Mismatched Token: expecting any AST node")
      | a :: _ => .ok ([a], rest)
    | .name =>
      match tables.lookup t.text with
      | some es => .ok (es, rest)
      | none => .ok ([t], rest)
    | _ => .error (meaningless (t :: rest))

def furtherEntries (tables : List (Chars × List Tree)) : Nat → List Tree → Faulty (List Tree)
  | 0, _ => .error .tooDeep
  | _, [] => .ok []
  | fuel + 1, t :: rest =>
    if isTable t.kind then do
      let (es, rest) ← tableEntries tables fuel (t :: rest)
      return es ++ (← furtherEntries tables fuel rest)
    else .ok []

end

def registerNames : Faulty (List Chars × List Tree) := do
  let (t, rest) ← nextTree .register ts
  return (t.text :: (rest.takeWhile (·.kind == .register)).map Tree.text, rest.dropWhile (·.kind == .register))

variable (d : Definitions)

def declare (name : Chars) (width : Int) : Faulty Definitions := do
  let (v, vars) ← d.vars.obtain (String.ofList name) width
  return { d with vars := vars, declared := d.declared ++ [v] }

def declarationEnds : List Tree → Bool
  | [] => true
  | t :: _ => t.kind == .register || t.kind == .index || t.kind == .lsquare

def declaredWidth : Faulty (Int × List Tree) := do
  let (_, ts) ← nextTree .lsquare ts
  let (w, ts) ← nextNumber ts
  let (_, ts) ← nextTree .rsquare ts
  let (_, ts) ← nextTree .index ts
  let (_, ts) ← nextNumber ts
  return (w, ts)

def declareOne (name : Chars) (ts : List Tree) : Faulty (Definitions × List Tree) := do
  let (w, ts) ← declaredWidth ts
  match ts with
  | ⟨.covers, _, _⟩ :: ts =>
    let (_, ts) ← nextTree .register ts
    let (_, ts) ← nextTree .upTo ts
    let _ ← nextTree .register ts
    throw (.failure (some "COVERS not yet supported!"))
  | ⟨.shares, _, _⟩ :: ts =>
    let (parent, ts) ← nextTree .register ts
    let (_, ts) ← nextTree .atSign ts
    let (_, ts) ← nextTree .lsquare ts
    let (first, ts) ← nextNumber ts
    let (_, ts) ← nextTree .upTo ts
    let (last, ts) ← nextNumber ts
    let (_, ts) ← nextTree .rsquare ts
    return ({ d with vars := ← d.vars.share (String.ofList name) (String.ofList parent.text) first last }, ts)
  | _ =>
    if declarationEnds ts then return (← declare d name w, ts) else throw (meaningless ts)

def declareMany (ts : List Tree) : Faulty (Definitions × List Tree) := do
  let (names, ts) ← registerNames ts
  let (_, ts) ← nextTree .rsquare ts
  let (w, ts) ← declaredWidth ts
  let ts ← match ts with
    | ⟨.upTo, _, _⟩ :: ts => do
      let (_, ts) ← nextNumber ts
      pure ts
    | _ => if declarationEnds ts then pure ts else throw (meaningless ts)
  let d ← names.foldlM (fun d n => declare d n w) d
  return (d, ts)

def declareAll : Nat → Definitions → List Tree → Faulty Definitions
  | 0, d, _ => .ok d
  | fuel + 1, d, ts =>
    match ts with
    | ⟨.index, _, _⟩ :: ts => do
      let (t, ts) ← nextTree .register ts
      let (_, ts) ← nextNumber ts
      declareAll fuel (← declare d t.text unknownWidth) ts
    | ⟨.register, name, _⟩ :: ts => do
      let (d, ts) ← declareOne d name ts
      declareAll fuel d ts
    | ⟨.lsquare, _, _⟩ :: ts => do
      let (d, ts) ← declareMany d ts
      declareAll fuel d ts
    | _ => .ok d

/-! ### Bodies -/

def entry (table index : Chars) : Faulty Tree := do
  match d.tables.lookup table with
  | none =>
    let _ ← int32 index
    throw .absent
  | some es =>
    let i ← int32 index
    if 0 ≤ i then
      match es[i.toNat]? with
      | some t => return t
      | none => throw .outsideList
    else throw .outsideList

def bindArguments : List Chars → List Tree → Faulty Locals
  | [], _ => .ok []
  | _ :: _, [] => .error .outsideList
  | p :: ps, a :: as => do return (p, a) :: (← bindArguments ps as)

def Locals.find? (ls : Locals) (name : Chars) : Option Tree := ls.reverse.lookup name

mutual

def expand (d : Definitions) (locals : Locals) : Nat → List Tree → Faulty (Tree × List Tree)
  | 0, _ => .error .tooDeep
  | _, [] => .error (meaningless [])
  | fuel + 1, t :: rest =>
    match t.kind with
    | .name =>
      match locals.find? t.text with
      | some e => .ok (e, rest)
      | none =>
        match d.constants.lookup t.text with
        | some v => .ok (.node .num (toString v).toList [], rest)
        | none => .ok (t, rest)
    | .lsquare => do
      let (n, more) ← nextTree .name t.children
      let (i, _) ← expand d locals fuel more
      return (← entry d n.text i.text, rest)
    | .lookupOp => do
      let (l, more) ← expand d locals fuel t.children
      let (n, more) ← nextTree .name more
      let (i, more) ← expand d locals fuel more
      let (r, _) ← expand d locals fuel more
      let o ← entry d n.text i.text
      return (.node o.kind o.text [l, r], rest)
    | .function => do
      let (n, more) ← nextTree .name t.children
      let arguments ← expandAll d locals fuel more
      match d.functions.lookup n.text with
      | none => throw .absent
      | some f =>
        let bound ← bindArguments f.parameters arguments
        let (b, _) ← expand d bound fuel [f.body]
        return (b, rest)
    | k => do return (.node k t.text (← expandAll d locals fuel t.children), rest)

def expandAll (d : Definitions) (locals : Locals) : Nat → List Tree → Faulty (List Tree)
  | 0, _ => .error .tooDeep
  | _, [] => .ok []
  | fuel + 1, t :: rest => do
    let (e, _) ← expand d locals fuel [t]
    return e :: (← expandAll d locals fuel rest)

end

def expansionDepth : Nat := 5000

/-! ### Instructions -/

abbrev NamedIndex := Chars × Locals

def elementNames (t : Tree) : Faulty (List NamedIndex) :=
  match t.kind with
  | .name => .ok [(t.text.map Char.toUpper, [])]
  | .decor => .ok [('.' :: (t.text.drop 1).map Char.toUpper, [])]
  | .lsquare => do
    let (n, more) ← nextTree .name t.children
    match d.tables.lookup n.text with
    | none => throw (.undefined ("Undefined table: " ++ String.ofList n.text))
    | some es =>
      match more with
      | ⟨.name, v, _⟩ :: _ =>
        return es.zipIdx.map (fun (e, i) => (e.text.map Char.toUpper, [(v, .node .num (Nat.toDigits 10 i) [])]))
      | ⟨.num, i, _⟩ :: _ =>
        let i ← int32 i
        if i < es.length then
          if 0 ≤ i then return (es[i.toNat]?.toList.map (fun e => (e.text.map Char.toUpper, [])))
          else throw .outsideList
        else throw (.undefined ("Index " ++ toString i ++ " out of bounds for table " ++ String.ofList n.text ++ "!"))
      | _ => throw (meaningless more)
  | _ => .error (meaningless [t])

def instructionNames (ts : List Tree) : Faulty (List NamedIndex) :=
  (ts.takeWhile (fun t => t.kind == .name || t.kind == .lsquare || t.kind == .decor)).foldlM (fun acc t => do
    let es ← elementNames d t
    if acc.isEmpty then return es
    return acc.flatMap (fun (n, ls) => es.map (fun (n', ls') => (n ++ n', ls ++ ls')))) []

def parameterNames : Faulty (List Chars × List Tree) := do
  let (t, rest) ← nextTree .comma ts
  return ((t.children.takeWhile (·.kind == .name)).map Tree.text, rest)

/-- Adds an instruction. The transfers of a second definition of one name come after those of the
first. -/
def addInstruction : List Procedure → Procedure → List Procedure
  | [], p => [p]
  | q :: qs, p =>
    if q.name == p.name then { q with body := .node q.body.kind q.body.text (q.body.children ++ p.body.children) } :: qs
    else q :: addInstruction qs p

def addPart (t : Tree) : Faulty Definitions :=
  match t.kind with
  | .constant => do
    let (n, ts) ← nextTree .name t.children
    let (v, _) ← constantValue 5000 ts
    return { d with constants := define d.constants n.text v }
  | .registers =>
    match t.children with
    | ⟨.integer, _, _⟩ :: ts | ⟨.float, _, _⟩ :: ts => declareAll (ts.length + 1) d ts
    | ts => .error (meaningless ts)
  | .table => do
    let (n, ts) ← nextTree .name t.children
    let (es, _) ← tableEntries d.tables 5000 ts
    return { d with tables := define d.tables n.text es }
  | .function => do
    let (n, ts) ← nextTree .name t.children
    let (ps, ts) ← parameterNames ts
    let (b, _) ← nextTree .transfers ts
    return { d with functions := define d.functions n.text ⟨n.text, ps, b⟩ }
  | .instr => do
    let (n, ts) ← nextTree .instrName t.children
    let names ← instructionNames d n.children
    let (ps, ts) ← parameterNames ts
    let (b, _) ← nextTree .transfers ts
    let instructions ← names.foldlM (fun acc (name, locals) => do
      let (body, _) ← expand d locals expansionDepth [b]
      return addInstruction acc ⟨name, ps, body⟩) d.instructions
    return { d with instructions := instructions }
  | _ => .error (meaningless [t])

def isPart (t : Tree) : Bool :=
  [Kind.constant, .registers, .table, .function, .instr].contains t.kind

def Definitions.ofTree (t : Option Tree) : Faulty Definitions := do
  let (t, _) ← nextTree .semi t.toList
  (t.children.takeWhile isPart).foldlM addPart d

end FlowRecovery.Spec
