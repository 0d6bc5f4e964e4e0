import FlowRecovery.Query.Expressions

/-!
# Queries about statements

A statement is written as a list that starts with a tag, or as a record with its labels. Without
labels, statement number `i` of a query stands at label `i` of a fixed address.
-/

namespace FlowRecovery.Query

def decodeLabel : Value → Answer (Option Label)
  | .null => .ok none
  | .list vs => do return some ⟨← longAt vs 0, ← intAt vs 1⟩
  | v => do return some ⟨← v.toInt64, 0⟩

def encodeLabel (l : Label) : Value := .list [l.address, l.index]

def encodeLabel? : Option Label → Value := .optional encodeLabel

def decodePlace (v : Value) : Answer Expr := do
  let e ← decodeExpr v
  if e.isPlace then return e else refuse .wrongKind

def decodeVariable (v : Value) : Answer Var := do
  match v with
  | .text n => variableNamed n
  | _ =>
    match ← decodeExpr v with
    | .var v => return v
    | _ => refuse .wrongKind

def decodeJumpKind : Value → Answer JumpKind
  | .null => .ok .jump
  | v => do
    match JumpKind.ofName? (← v.toText) with
    | some k => return k
    | none => refuse (.illegalArgument none)

def placedJump (label next : Option Label) (j : Jump) : PlacedJump :=
  let s : Stmt := { label := none, next := next, effect := .goto j }
  match label.map s.placeAt with
  | some ⟨l, n, .goto j⟩ => ⟨l, n, j⟩
  | _ => ⟨none, next, j⟩

def decodeEffect (v : Value) (label : Option Label) : Answer Effect := do
  let vs ← v.elements
  let tag ← textAt vs 0
  let e (n : Nat) : Answer Expr := do decodeExpr (← element vs n)
  match tag with
  | "assign" => return .assign (← decodeVariable (← element vs 1)) (← e 2)
  | "store" =>
    match ← e 1 with
    | .mem w a s n => return .store (.mem w a s n) (← e 2)
    | _ => refuse .wrongKind
  | "template" => return .template (← intAt vs 1) (← decodePlace (← element vs 2)) (← e 3)
  | "assume" =>
    let c ← e 1
    let k ← decodeJumpKind (elementOrNull vs 2)
    let t ← decodeExpr? (elementOrNull vs 3)
    return .assume c (placedJump label (label.map (fun l => Label.ofAddress (l.address + 5))) ⟨t, .tt, k⟩)
  | "alloc" =>
    let p ← decodePlace (← element vs 1)
    match elementOrNull vs 2 with
    | .null => return .alloc p none
    | n => return .alloc p (some (← n.toText))
  | "dealloc" => return .dealloc (← e 1)
  | "havoc" => return .havoc (← decodeVariable (← element vs 1)) (← e 2)
  | "memset" => return .memset (← e 1) (← e 2) (← e 3)
  | "memcpy" => return .memcpy (← e 1) (← e 2) (← e 3)
  | "goto" =>
    let t ← decodeExpr? (elementOrNull vs 1)
    let c ← e 2
    return .goto ⟨t, c, ← decodeJumpKind (elementOrNull vs 3)⟩
  | "skip" => return .skip
  | "halt" => return .halt
  | "callret" => return .callReturn
  | "assert" => return .assert (← e 1)
  | "debug" => return .debug (← textAt vs 1) (← e 2)
  | "ucall" => return .unknownCall (placedJump label none ⟨← decodeExpr? (elementOrNull vs 1), .tt, .call⟩)
  | _ => malformed ("unknown statement " ++ tag)

def decodeStmt (v : Value) (i : Int) : Answer Stmt := do
  let default (i : Int) : Option Label := some ⟨0x1000, i⟩
  let given (name : String) (i : Int) : Answer (Option Label) :=
    if v.hasField name then decodeLabel ((v.field? name).getD .null) else pure (default i)
  let (body, label, next) ← match v with
    | .record _ => do pure ((v.field? "s").getD .null, ← given "at" i, ← given "next" (i + 1))
    | _ => pure (v, default i, default (i + 1))
  let s : Stmt := { label := none, next := next, effect := ← decodeEffect body label }
  return (label.map s.placeAt).getD s

def decodeStmts (vs : List Value) : Answer (List Stmt) := vs.zipIdx.mapM (fun (v, i) => decodeStmt v i)

def encodeEffect : Effect → Faulty Value
  | .assign v e => do return .list ["assign", .list ["var", v.name], ← encodeExpr e]
  | .store m e => do return .list ["store", ← encodeExpr m, ← encodeExpr e]
  | .template w x e => do return .list ["template", w, ← encodeExpr x, ← encodeExpr e]
  | .assume e s => do return .list ["assume", ← encodeExpr e, s.jump.kind.name]
  | .alloc p n => do return .list ["alloc", ← encodeExpr p, .optional .text n]
  | .dealloc p => do return .list ["dealloc", ← encodeExpr p]
  | .havoc v m => do return .list ["havoc", .list ["var", v.name], ← encodeExpr m]
  | .memset d v c => do return .list ["memset", ← encodeExpr d, ← encodeExpr v, ← encodeExpr c]
  | .memcpy s d n => do return .list ["memcpy", ← encodeExpr s, ← encodeExpr d, ← encodeExpr n]
  | .goto g => do return .list ["goto", ← encodeExpr? g.target, ← encodeExpr g.condition, g.kind.name]
  | .skip => .ok (.list ["skip"])
  | .halt => .ok (.list ["halt"])
  | .callReturn => .ok (.list ["callret"])
  | .assert e => do return .list ["assert", ← encodeExpr e]
  | .debug m e => do return .list ["debug", m, ← encodeExpr e]
  | .unknownCall s => do return .list ["ucall", ← encodeExpr? s.jump.target]

def encodeStmt (names : SymbolNames) (s : Stmt) : Faulty Value := do
  return .record [("at", encodeLabel? s.label), ("next", encodeLabel? s.next), ("s", ← encodeEffect s.effect),
    ("str", .optional .text (s.text names))]

def encodeStmts (names : SymbolNames) (ss : List Stmt) : Faulty Value := do
  return .list (← ss.mapM (encodeStmt names))

def scratchRegisters : VarSet := IA32.architecture.scratch

variable (query : Value)

def stmtAction (s : Stmt) (action : Value) : Answer Value := do
  match ← action.toText with
  | "info" =>
    return .record [("str", .optional .text (s.text noSymbols)), ("uses", namesOf (← s.effect.uses scratchRegisters)),
      ("defines", namesOf (← s.effect.defines scratchRegisters)), ("mems", ← encodeSet (← s.effect.locations)),
      ("instantiated", s.label.isSome)]
  | "infer" => encodeStmt noSymbols (← s.inferTypes)
  | "eval" =>
    let c ← decodeContext query
    match ← s.evaluate c with
    | (none, _) => return .null
    | (some s, _) => encodeStmt noSymbols s
  | "convert" =>
    match s.effect with
    | .template .. => encodeStmt noSymbols (← s.normalize)
    | _ => refuse .wrongKind
  | "equalcopy" => return s.equalsCopy
  | t => malformed ("unknown action " ++ t)

def statement : Answer Value := do
  let s ← decodeStmt ((query.field? "s").getD .null) 0
  runActions query (stmtAction query s)

/-! ### Sequences -/

abbrev Work := Option (List Stmt)

def afterAttempt (a : Attempt) (mayVanish : Bool) : Answer (Value × Work) :=
  match a.fault with
  | some f => .ok (.fault f, some a.built)
  | none =>
    if mayVanish && a.built.isEmpty then .ok (.fault .absent, none)
    else do return (← settle (encodeStmts noSymbols a.built), some a.built)

def plainSequenceStep (kind : String) (ss : List Stmt) : Answer (Value × Work) := do
  let one (s : Option Stmt) : Answer (Value × Work) :=
    match s with
    | none => return (.fault .noElement, some ss)
    | some s => do return (← settle (encodeStmt noSymbols s), some ss)
  match kind with
  | "show" =>
    let shown : Answer Value := do
      let stmts ← encodeStmts noSymbols ss
      return .record [("stmts", stmts), ("str", Sequence.text noSymbols ss), ("len", .nat ss.length),
        ("defines", namesOf (← Sequence.defines scratchRegisters ss))]
    return (← settle shown, some ss)
  | "canonize" => afterAttempt (Sequence.canonize IA32.architecture.special.pc ss) true
  | "normalize" => afterAttempt (Sequence.normalize ss) false
  | "copy" => afterAttempt { built := ss } false
  | "removeLast" =>
    if ss.isEmpty then return (.fault .noElement, some ss) else afterAttempt { built := ss.dropLast } false
  | "first" => one ss.head?
  | "last" => one ss.getLast?
  | _ => malformed "unknown step"

def sequenceStep (work : Work) (step : Value) : Answer (Value × Work) := do
  let vs ← step.elements
  let kind ← textAt vs 0
  let on (f : List Stmt → Answer (Value × Work)) : Answer (Value × Work) :=
    match work with
    | none => pure (.fault .absent, none)
    | some ss => f ss
  let listed : Answer (List Stmt) := do decodeStmts (← listAt vs 1)
  match kind with
  | "addFirst" =>
    let more ← listed
    on (fun ss => afterAttempt { built := more ++ ss } false)
  | "addLast" =>
    let more ← listed
    on (fun ss => afterAttempt { built := ss ++ more } false)
  | "replace" =>
    let a ← decodeStmt (← element vs 1) 0
    let b ← decodeStmt (← element vs 2) 0
    on (fun ss => afterAttempt { built := Sequence.replace a b ss } true)
  | "evaluate" =>
    let c ← decodeContext (elementOrNull vs 1)
    on (fun ss => afterAttempt (Sequence.evaluate c ss) true)
  | _ => on (plainSequenceStep kind)

def sequence : Answer Value := do
  let ss ← decodeStmts (← query.listField "stmts")
  let (rs, _) ← runSteps (← query.listField "steps") (some ss : Work) (fun work step =>
    match sequenceStep work step with
    | .error (.fault f) => .ok (.fault f, work)
    | r => r)
  return .list rs

/-! ### Specifications -/

def specification : Answer Value := do
  let text ← query.textField "text" ""
  let arch ← Architecture.ofTexts [text.toUTF8.toList.map (fun b => Char.ofNat b.toNat)]
  let all := arch.vars.toList
  let names (s : VarSet) : Value := .sortedTexts ((s.toList all).map Var.name)
  let vars ← all.mapM (fun v => do
    return Value.list [v.name, v.width, ← encodeExpr? (arch.vars.parent? v)])
  let instructions ← arch.templates.mapM (fun t => do
    let body ← match t.body with
      | none => pure Value.null
      | some ss => encodeStmts noSymbols ss
    return (t.name, Value.list [t.text, .texts (t.parameters.map Var.name), body]))
  return .record [("variables", .sorted vars), ("registers", names arch.registers), ("flags", names arch.flags),
    ("temporaries", names arch.temporaries), ("instructions", .record instructions)]

end FlowRecovery.Query
