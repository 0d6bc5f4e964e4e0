import FlowRecovery.IA32.Architecture
import FlowRecovery.Query.Value

/-!
# Queries about expressions

Expressions are written as lists that start with a tag. `decodeExpr` builds an expression by the
smart constructors, so a query can fail where they do; `encodeExpr` writes it. The answers below are
about single expressions and about sets of variables.
-/

namespace FlowRecovery.Query

def machineVariables : Registers := IA32.architecture.vars

def variableNamed (name : String) : Answer Var :=
  match machineVariables.find? name with
  | some v => .ok v
  | none => malformed ("unknown variable " ++ name)

def binaryFunction? : String → Option (Expr → Expr → Faulty Expr)
  | "minus" => some Expr.minus
  | "fdiv" => operate .floatDiv
  | "div" => operate .div
  | "pow" => operate .powerOf
  | "eq" => some Expr.equal
  | "ne" => some Expr.notEqual
  | "lt" => some Expr.less
  | "le" => some Expr.lessOrEqual
  | "gt" => some (fun a b => Expr.less b a)
  | "ge" => some Expr.greaterOrEqual
  | "ult" => some Expr.unsignedLess
  | "ule" => some Expr.unsignedLessOrEqual
  | "ugt" => some (fun a b => Expr.unsignedLess b a)
  | "uge" => some Expr.unsignedGreaterOrEqual
  | "and" => some Expr.and
  | "or" => some Expr.or
  | "xor" => operate .xor
  | "shr" => operate .shr
  | "sar" => operate .sar
  | "shl" => operate .shl
  | "rol" => operate .rol
  | "ror" => operate .ror
  | "rolc" => operate .rolc
  | "rorc" => operate .rorc
  | "implies" => some Expr.implies
  | "cast" => operate .cast
  | _ => none
where
  operate (o : Operator) : Option (Expr → Expr → Faulty Expr) := some (fun a b => Expr.operation o [a, b])

def function? : String → Option (List Expr → Faulty Expr)
  | "plus" => some Expr.plus
  | "mul" => some (Expr.operation .mul)
  | "fmul" => some (Expr.operation .floatMul)
  | "mod" => some (Expr.operation .mod)
  | "not" => some (Expr.operation .not)
  | "neg" => some (Expr.operation .neg)
  | "fsize" => some (Expr.operation .floatResize)
  | _ => none

def operatorNamed (name : String) : Answer Operator :=
  match Operator.ofName? name with
  | some o => .ok o
  | none => refuse (.illegalArgument none)

mutual

def decodeTo : Nat → Value → Answer Expr
  | 0, _ => refuse .tooDeep
  | fuel + 1, v => do
    let vs ← v.elements
    let tag ← textAt vs 0
    let part (n : Nat) : Answer Expr := do decodeTo fuel (← element vs n)
    match tag with
    | "num" => return .number (← longAt vs 1) (← intAt vs 2)
    | "var" => return .var (← variableNamed (← textAt vs 1))
    | "op" =>
      let o ← operatorNamed (← textAt vs 1)
      Expr.operation o (← decodeAllTo fuel (vs.drop 2))
    | "bits" => return .bits (← part 1) (← part 2) (← part 3)
    | "cond" => return Expr.conditional (← part 1) (← part 2) (← part 3)
    | "mem" =>
      let w ← intAt vs 1
      let a ← part 2
      let segment ← match elementOrNull vs 3 with
        | .null => pure none
        | s => do pure (some (← decodeTo fuel s))
      let state ← match elementOrNull vs 4 with
        | .null => pure 0
        | n => n.toInt32
      Expr.memory w a segment state
    | "special" => Expr.named (← textAt vs 1) (← decodeAllTo fuel (vs.drop 2))
    | "nondet" => Expr.unspecified (← intAt vs 1)
    | "fn" =>
      let name ← textAt vs 1
      match name, binaryFunction? name, function? name with
      | "plusc", _, _ => Expr.plusConstant (← part 2) (← longAt vs 3)
      | "sext", _, _ =>
        let e ← part 2
        Expr.signExtend (.number (← longAt vs 3) 8) (.number (← longAt vs 4) 8) e
      | "zfill", _, _ =>
        let e ← part 2
        Expr.zeroFill (.number (← longAt vs 3) 8) (.number (← longAt vs 4) 8) e
      | _, some f, _ => f (← part 2) (← part 3)
      | _, _, some f => f (← decodeAllTo fuel (vs.drop 2))
      | _, _, _ => malformed ("unknown function " ++ name)
    | _ => malformed ("unknown expression " ++ tag)

def decodeAllTo : Nat → List Value → Answer (List Expr)
  | 0, _ => refuse .tooDeep
  | _, [] => return []
  | fuel + 1, v :: vs => do return (← decodeTo fuel v) :: (← decodeAllTo fuel vs)

end

variable (v : Value)

def decodeExpr : Answer Expr := decodeTo 20000 v

def decodeExpr? : Value → Answer (Option Expr)
  | .null => .ok none
  | v => do return some (← decodeExpr v)

def exprField (name : String) : Answer Expr := decodeExpr ((v.field? name).getD .null)

mutual

def encodeExpr : Expr → Faulty Value
  | .num v w => .ok (.list ["num", v, w])
  | .var v => .ok (.list ["var", v.name])
  | .op o as => do return .list ([.text "op", .text o.name] ++ (← encodeAll as))
  | .bits x f l => do return .list ["bits", ← encodeExpr x, ← encodeExpr f, ← encodeExpr l]
  | .cond c t f => do return .list ["cond", ← encodeExpr c, ← encodeExpr t, ← encodeExpr f]
  | .mem w a s n => do return .list ["mem", w, ← encodeExpr a, ← encodeSegment s, n]
  | .special n as => do
    if as.isEmpty then throw .absent
    return .list ([.text "special", .text n] ++ (← encodeAll as))
  | .nondet w => .ok (.list ["nondet", w])

def encodeAll : List Expr → Faulty (List Value)
  | [] => .ok []
  | e :: es => do return (← encodeExpr e) :: (← encodeAll es)

def encodeSegment : Option Expr → Faulty Value
  | none => .ok .null
  | some s => encodeExpr s

end

def encodeExpr? : Option Expr → Faulty Value := encodeSegment

def exprAndText (e : Expr) : Faulty Value := do
  return .record [("e", ← encodeExpr e), ("str", e.text)]

def decodePair : Answer (Expr × Expr) := do
  let vs ← v.elements
  return (← decodeExpr (← element vs 0), ← decodeExpr (← element vs 1))

def decodeContext : Answer Context := do
  let c ← (← v.listField "subst").foldlM (fun (c : Context) p => do
    let (a, b) ← decodePair p
    c.substitute a b) Context.empty
  (← v.listField "assign").foldlM (fun (c : Context) p => do
    let (a, b) ← decodePair p
    c.assign a b) c

def namesOf (s : VarSet) : Value := .sortedTexts ((s.toList machineVariables.toList).map Var.name)

def encodeSet (es : List Expr) : Faulty Value := do return .sorted (← encodeAll es)

def operandText (e : Expr) : Faulty Value :=
  match e with
  | .num v w =>
    if [8, 16, 32, 64, 128].contains w then .ok ("$0x" ++ Text.hex32 (Word.low32 v) : String)
    else .error (.illegalArgument none)
  | _ => .ok .null

variable (query : Value)

def exprAction (e : Expr) (action : Value) : Answer Value := do
  match action with
  | .text "info" =>
    return .record [("str", e.text), ("hex", e.hexText), ("width", ← e.width), ("size", .nat e.size),
      ("vars", namesOf e.vars), ("mems", ← encodeSet e.locations)]
  | .text "write" =>
    if !e.isPlace then refuse .wrongKind
    let w ← e.onWrite
    return .record [("uses", namesOf w.reads), ("defines", namesOf w.changes),
      ("usesmem", ← encodeSet w.readsMemory), ("definesmem", ← encodeSet w.changesMemory)]
  | .text "simplify" => exprAndText (← e.simplify)
  | .text "canon" => exprAndText (← e.canonize)
  | .text "eval" =>
    let c ← decodeContext query
    exprAndText (← e.evaluate c)
  | .text "operand" => operandText e
  | .list [.text "infer", w] => exprAndText (← e.inferWidth (← w.toInt32))
  | .list [.text "inverse", b] =>
    let b ← decodeExpr b
    match e with
    | .bits x f l => exprAndText (← Expr.insertBits x f l b)
    | _ => refuse .wrongKind
  | _ => malformed "unknown action"

def runActions (act : Value → Answer Value) : Answer Value := do
  let results ← (← query.listField "do").mapM (fun a => do return (a.key, ← settle (act a)))
  return .record results

def expression : Answer Value := do
  let e ← exprField query "e"
  runActions query (exprAction query e)

def comparison : Answer Value := do
  let a ← exprField query "a"
  let b ← exprField query "b"
  return .record [("equal", a.equals b), ("swapped", b.equals a), ("hashes", true)]

def allVariables : Answer Value := do
  let arch := IA32.architecture
  let names (vs : List Var) : Value := .sortedTexts (vs.map Var.name)
  let rows ← machineVariables.toList.mapM (fun v => do
    return Value.list [v.name, v.width, ← encodeExpr? (machineVariables.parent? v), names (machineVariables.covered v),
      names (machineVariables.covering v), arch.registers.contains v, arch.flags.contains v,
      arch.temporaries.contains v])
  return .sorted rows

def decodeVariables : Answer (List Var) := do
  (← v.elements).mapM (fun n => do variableNamed (← n.toText))

def variableSetStep (slots : Slots VarSet) (kind : String) (s : VarSet) (arg : Value) :
    Answer (Value × VarSet) := do
  let listed : Answer VarSet := do return VarSet.ofList (← decodeVariables arg)
  let other : Answer VarSet := do return (slots.lookup (← arg.toText)).getD .empty
  let one : Answer Var := do variableNamed (← arg.toText)
  let changed (t : VarSet) : Value × VarSet := (.bool (t != s), t)
  match kind with
  | "add" => return changed (s.insert (← one))
  | "remove" => return changed (s.erase (← one))
  | "contains" => return (s.contains (← one), s)
  | "addlist" => return changed (s.union (← listed))
  | "addarray" => return (.null, s.union (← listed))
  | "removelist" => return changed (s.diff (← listed))
  | "retainlist" => return changed (s.inter (← listed))
  | "containsall" => return ((← listed).subset s, s)
  | "equallist" => return ((← listed) == s, s)
  | "fromlist" => return (.null, ← listed)
  | "addset" => return (.null, s.union (← other))
  | "removeset" => return (.null, s.diff (← other))
  | "retainset" => return (.null, s.inter (← other))
  | "containsset" => return (s.subset (← other), s)
  | "equal" => return (s == (← other), s)
  | "copy" => return (.null, s)
  | "clear" => return (.null, .empty)
  | _ => malformed "unknown step"

def variableSets : Answer Value := do
  let (rs, _) ← runSteps (← query.listField "steps") ([] : Slots VarSet) (fun slots step => do
    let vs ← step.elements
    let kind ← textAt vs 0
    let slot ← textAt vs 1
    let arg := elementOrNull vs 2
    let (r, s) ← variableSetStep slots kind ((slots.lookup slot).getD .empty) arg
    let slots ← if kind == "copy" then do pure (Slots.put slots (← arg.toText) s) else pure slots
    let members := s.toList machineVariables.toList
    return (.record [("r", r), ("set", namesOf s), ("size", .nat members.length), ("empty", s.isEmpty)],
      Slots.put slots slot s))
  return .list rs

end FlowRecovery.Query
