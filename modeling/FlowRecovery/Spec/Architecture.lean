import FlowRecovery.Spec.Conversion
import FlowRecovery.Spec.Grammar
import FlowRecovery.Spec.Lexer
import FlowRecovery.Stmt.Sequence

/-!
# Architectures

`Architecture.ofTexts` reads the specification of a machine: its registers, and for every
instruction a template of statements over the parameters of the instruction. A transfer to the
program counter at the end of a body becomes a jump.
-/

namespace FlowRecovery

/-- The statements of an instruction over its parameters. -/
structure Template where
  name : String
  parameters : List Var
  body : Option (List Stmt)

def Template.text (t : Template) : String :=
  t.name ++ "(" ++ ",".intercalate (t.parameters.map Var.name) ++ ")"

/-- Variables with a role of their own. -/
structure SpecialRegisters where
  pc : Var
  stackPointer : Var
  framePointer : Var
  returnAddress : Var
  loopCounter : Var
  stringSource : Var
  stringTarget : Var
  deriving Inhabited

/-- A machine: its variables, and the templates of its instructions. -/
structure Architecture where
  vars : Registers
  registers : VarSet
  flags : VarSet
  temporaries : VarSet
  special : SpecialRegisters
  /-- Templates by the part of their name before the first point, those of one group in the order of
  their names. -/
  groups : List (String × List Template)
  directives : List Template
  deriving Inhabited

namespace Architecture

variable (arch : Architecture)

def scratch : VarSet := VarSet.ofList (["eax", "ecx", "edx"].filterMap arch.vars.find?)

def controlVariables : List (String × Int) := [("pc", 32), ("SKIP", 1), ("RPT", 1)]

def temporaryVariables : List (String × Int) := [
  ("tmpb", 8), ("tmph", 16), ("tmp1", 32), ("tmp2", 32), ("tmp3", 32), ("tmp4", 32), ("tmp5", 32), ("retaddr", 32),
  ("tmpl", 64), ("tmpD", 80), ("tmpD1", 80), ("tmpD2", 80), ("tmpb1", 8), ("tmpb2", 8), ("tmph1", 16), ("tmph2", 16),
  ("tmpq2", 64), ("tmpq3", 64), ("tmpq5", 64)]

def flagVariables : List (String × Int) := [
  ("AF", 1), ("CF", 1), ("C1", 1), ("C2", 1), ("FLF", 1), ("FZF", 1), ("fsw", 16), ("fcw", 16), ("fstp", 8),
  ("DF", 1), ("IF", 1), ("OF", 1), ("PF", 1), ("SF", 1), ("ZF", 1)]

def specialVariables : List (String × Int) :=
  [("pc", 32), ("esp", 32), ("ebp", 32), ("retaddr", 32), ("ecx", 32), ("esi", 32), ("edi", 32)]

def jumpKind : Spec.Chars → JumpKind
  | 'R' :: 'E' :: 'T' :: _ => .ret
  | 'C' :: 'A' :: 'L' :: 'L' :: _ => .call
  | _ => .jump

def isVar (v : Var) : Expr → Bool
  | .var v' => v'.index == v.index
  | _ => false

def jumpTo (pc : Var) (kind : JumpKind) : Expr → Faulty Jump
  | .cond c t f =>
    if isVar pc t then do return ⟨some f, ← Expr.not c, kind⟩
    else if isVar pc f then .ok ⟨some t, c, kind⟩
    else .error (.violated none)
  | e => .ok (Jump.always e kind)

/-- Turns a transfer to the program counter at the end of the statements into a jump, and adds a
jump if the program counter changes elsewhere. -/
def closeBody (pc : Var) (name : Spec.Chars) (body : List Stmt) : Faulty (List Stmt) := do
  let kind := jumpKind name
  let body ← match body.getLast? with
    | none => throw .absent
    | some last =>
      match last.effect with
      | .template _ x e =>
        if isVar pc x then do
          let jump ← jumpTo pc kind e
          pure (Sequence.replace last (.ofEffect (.goto jump)) body)
        else pure body
      | _ => pure body
  if (← Sequence.defines .empty body).contains pc then
    return body ++ [.ofEffect (.goto (.always (.var pc) kind))]
  else return body

def bodyOf (pc : Var) (d : Spec.Definitions) (p : Spec.Procedure) : Spec.Conversion (Option (List Stmt)) := do
  let statements ← Spec.convert d.constants Spec.expansionDepth p.body
  let evaluated ← (Sequence.evaluate .empty statements).result
  if evaluated.isEmpty then return none
  let canonical ← (Sequence.canonize pc evaluated).result
  return some (← closeBody pc p.name canonical)

def parametersOf (p : Spec.Procedure) : Spec.Conversion (List Var) :=
  p.parameters.mapM (fun n => do
    let (v, r) ← (← get).obtain (String.ofList n) unknownWidth
    set r
    pure v)

def templateOf (pc : Var) (d : Spec.Definitions) (p : Spec.Procedure) : Spec.Conversion Template := do
  let body ← bodyOf pc d p
  return ⟨String.ofList p.name, ← parametersOf p, body⟩

/-- Templates for instructions that tell the analysis something: allocate, free, any value, any
value up to a bound, and assertions. -/
def directiveTemplates : Spec.Conversion (List Template) := do
  let get (name : String) : Spec.Conversion Var := do
    let (v, r) ← (← StateT.get).obtain name unknownWidth
    StateT.set r
    pure v
  let reg8 ← get "reg8"
  let reg16 ← get "reg16"
  let reg32 ← get "reg32"
  let i8 ← get "i8"
  let i16 ← get "i16"
  let i32 ← get "i32"
  let modrm ← get "modrm"
  let one (name : String) (e : Effect) (ps : List Var) : Template := ⟨name, ps, some [.ofEffect e]⟩
  let any (v : Var) (w : Int) : Effect := .template w (.var v) (.nondet w)
  let operand : Spec.Conversion Expr := Expr.operation .cast [.var modrm, .number 32 8]
  let greater ← do Expr.less (← operand) (.var reg32)
  let notLess ← do Expr.greaterOrEqual (.var reg32) (← operand)
  let equal ← do Expr.equal (.var reg32) (← operand)
  return [
    one "ALLOC" (.alloc (.var reg32) none) [reg32],
    one "DEALLOC" (.dealloc (.var modrm)) [modrm],
    one "NONDET8" (any reg8 8) [reg8, i8],
    one "NONDET16" (any reg16 16) [reg16, i16],
    one "NONDET32" (any reg32 32) [reg32, i32],
    one "HAVOC8ULEQ" (.havoc reg8 (.var i8)) [reg8, i8],
    one "HAVOC16ULEQ" (.havoc reg16 (.var i16)) [reg16, i16],
    one "HAVOC32ULEQ" (.havoc reg32 (.var i32)) [reg32, i32],
    one "ASSERTGT" (.assert greater) [reg32, modrm],
    one "ASSERTGE" (.assert notLess) [reg32, modrm],
    one "ASSERTEQ" (.assert equal) [reg32, modrm]]

/-! ### Groups of templates -/

def groupName (name : Spec.Chars) : Spec.Chars := name.takeWhile (· != '.')

def addToGroup (t : Template) (name : String) : List (String × List Template) → List (String × List Template)
  | [] => [(name, [t])]
  | (n, ts) :: groups => if n == name then (n, ts ++ [t]) :: groups else (n, ts) :: addToGroup t name groups

def grouped (ts : List Template) : List (String × List Template) :=
  ts.foldl (fun groups t => addToGroup t (String.ofList (groupName t.name.toList)) groups) []

def group? (name : String) : Option (List Template) := arch.groups.lookup name

def named? (name : String) : Option Template :=
  ((arch.group? (String.ofList (groupName name.toList))).getD []).reverse.find? (·.name == name)

def templates : List Template :=
  (arch.groups.flatMap Prod.snd).mergeSort (fun s t => !decide (t.name < s.name))

/-! ### Reading a specification -/

def initialVariables : Faulty Registers := do
  return (← Registers.obtainAll {} (controlVariables ++ temporaryVariables ++ flagVariables)).2

def define (texts : List (List Char)) (d : Spec.Definitions) : Faulty Spec.Definitions :=
  texts.foldlM (fun d text => do d.ofTree (Spec.Tree.ofTokens (← Spec.Token.scan text))) d

def bare (declared : List Var) (vars : Registers) : Faulty Architecture := do
  let (directives, vars) ← directiveTemplates.run vars
  let (special, vars) ← vars.obtainAll specialVariables
  let setOf (names : List (String × Int)) : VarSet := VarSet.ofList (names.filterMap (fun (n, _) => vars.find? n))
  return {
    vars := vars
    registers := (VarSet.ofList declared).diff (setOf flagVariables)
    flags := setOf flagVariables
    temporaries := setOf temporaryVariables
    special := match special with
      | [pc, esp, ebp, retaddr, ecx, esi, edi] => ⟨pc, esp, ebp, retaddr, ecx, esi, edi⟩
      | _ => default
    groups := []
    directives := directives }

def counter (vars : Registers) : Var := (vars.find? "pc").getD default

def insertByName (p : Spec.Procedure) : List Spec.Procedure → List Spec.Procedure
  | [] => [p]
  | q :: qs => if q.name < p.name then q :: insertByName p qs else p :: q :: qs

def sortByName (ps : List Spec.Procedure) : List Spec.Procedure := ps.foldr insertByName []

def ofTexts (texts : List (List Char)) : Faulty Architecture := do
  let d ← define texts { vars := ← initialVariables }
  let (templates, vars) ← ((sortByName d.instructions).mapM (templateOf (counter d.vars) d)).run d.vars
  return { ← bare d.declared vars with groups := grouped templates }

def groupOf (d : Spec.Definitions) (name : Spec.Chars) : List Template :=
  let procedures := sortByName (d.instructions.filter (fun p => groupName p.name == name))
  match (procedures.mapM (templateOf (counter d.vars) d)).run d.vars with
  | .ok (ts, _) => ts
  | .error _ => []

end Architecture

end FlowRecovery
