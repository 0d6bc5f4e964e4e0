import FlowRecovery.Expr.Uses
import FlowRecovery.Label

/-!
# Statements

A machine instruction is a sequence of statements, each of which changes one place, transfers
control, or does nothing. `Effect` says what a statement does; `Stmt` adds where it stands and where
control goes next.
-/

namespace FlowRecovery

/-- Why control is transferred. -/
inductive JumpKind where
  | call | ret | jump | stringLengthCheck | repeated
  deriving DecidableEq

namespace JumpKind

def name : JumpKind → String
  | call => "CALL" | ret => "RETURN" | jump => "JUMP"
  | stringLengthCheck => "STRING_LENGTH_CHECK" | repeated => "REPEAT"

def ofName? (s : String) : Option JumpKind :=
  [call, ret, jump, stringLengthCheck, repeated].find? (·.name == s)

end JumpKind

/-- A transfer of control to `target` if `condition` holds. -/
structure Jump where
  target : Option Expr
  condition : Expr
  kind : JumpKind

/-- A jump together with its place, as other statements refer to it. -/
structure PlacedJump where
  label : Option Label
  next : Option Label
  jump : Jump

/-- What a statement does. -/
inductive Effect where
  | assign (v : Var) (value : Expr)
  | store (location value : Expr)
  /-- Some place of an instruction that is not instantiated yet gets a value of `width` bits. -/
  | template (width : Int) (place value : Expr)
  /-- Only runs in which the condition holds go on. `source` is the jump that was decided. -/
  | assume (condition : Expr) (source : PlacedJump)
  | alloc (pointer : Expr) (name : Option String)
  | dealloc (pointer : Expr)
  | havoc (v : Var) (maximum : Expr)
  | memset (destination value count : Expr)
  | memcpy (source destination size : Expr)
  | goto (jump : Jump)
  | skip
  | halt
  | callReturn
  | assert (condition : Expr)
  | debug (message : String) (value : Expr)
  | unknownCall (source : PlacedJump)
  deriving Inhabited

/-- A statement at a place. -/
structure Stmt where
  label : Option Label
  next : Option Label
  effect : Effect
  deriving Inhabited

/-- The names of addresses: nothing for an address outside the program, else a possibly empty name.
-/
abbrev SymbolNames := Int64 → Option String

def noSymbols : SymbolNames := fun _ => none

namespace Jump

def always (target : Expr) (kind : JumpKind) : Jump := ⟨some target, .tt, kind⟩

/-- What is known about the memory location that holds the target: the name of its address, or the
address. -/
def targetNote (names : SymbolNames) : Expr → String
  | .mem _ (.num v _) _ _ =>
    match names v with
    | some name => if name == "" then "" else "(" ++ name ++ ")"
    | none => addressText v
  | _ => ""

def text (names : SymbolNames) (j : Jump) : String :=
  (if j.condition.equals .tt then "" else "if " ++ j.condition.text ++ " ") ++ "GOTO " ++
    (match j.target with
    | some t => t.hexText ++ targetNote names t
    | none => "null")

def equals (a b : Jump) : Bool :=
  a.condition.equals b.condition && a.kind == b.kind &&
    (match a.target, b.target with
    | none, none => true
    | some t, some t' => t.equals t'
    | _, _ => false)

end Jump

namespace PlacedJump

def equals (a b : PlacedJump) : Bool := a.label == b.label && a.jump.equals b.jump

end PlacedJump

namespace Effect

def text (names : SymbolNames) : Effect → Option String
  | .assign v e => some (v.name ++ " := " ++ e.text)
  | .store m e => some (m.text ++ " := " ++ e.text)
  | .template _ x e => some (x.text ++ " := " ++ e.text)
  | .assume e _ => some ("assume " ++ e.text)
  | .alloc p _ => some (p.text ++ " := alloc()")
  | .dealloc p => some ("dealloc(" ++ p.text ++ ")")
  | .havoc v m => some ("havoc(" ++ v.name ++ "); assume(" ++ v.name ++ " u<= " ++ m.text ++ ")")
  | .memset d v c => some ("memset(" ++ d.text ++ ", " ++ v.text ++ ", " ++ c.text ++ ")")
  | .memcpy s d n => some ("memcpy(" ++ s.text ++ ", " ++ d.text ++ ", " ++ n.text ++ ")")
  | .goto j => some (j.text names)
  | .skip => some "skip"
  | .halt => some "halt"
  | .callReturn => none
  | .assert e => some ("assert " ++ e.text)
  | .debug m e => some ("DebugPrint(" ++ m ++ ", " ++ e.text ++ ")")
  | .unknownCall j => some ("return from call(" ++ (j.jump.target.map Expr.text).getD "null" ++ ")")

/-- Equality of effects. Of statements without influence on registers, and of those on blocks of
memory, only the kind counts. -/
def equals : Effect → Effect → Bool
  | .assign v e, .assign v' e' => v.index == v'.index && e.equals e'
  | .store m e, .store m' e' => m.equals m' && e.equals e'
  | .template w x e, .template w' x' e' => w == w' && x.equals x' && e.equals e'
  | .assume e j, .assume e' j' => e.equals e' && j.equals j'
  | .alloc p _, .alloc p' _ => p.equals p'
  | .dealloc p, .dealloc p' => p.equals p'
  | .goto j, .goto j' => j.equals j'
  | .assert e, .assert e' => e.equals e'
  | .unknownCall j, .unknownCall j' => j.equals j'
  | .havoc .., .havoc .. | .memset .., .memset .. | .memcpy .., .memcpy .. | .skip, .skip | .halt, .halt
  | .callReturn, .callReturn | .debug .., .debug .. => true
  | _, _ => false

/-- The variables that the effect depends on; a call of an unknown procedure uses the registers of
the given set. -/
def uses (scratch : VarSet) : Effect → Faulty VarSet
  | .assign _ e => .ok e.vars
  | .store m e => do return (← m.variablesOnWrite).union e.vars
  | .template _ x e => do return (← x.variablesOnWrite).union e.vars
  | .assume e _ => .ok e.vars
  | .alloc p _ => p.variablesOnWrite
  | .dealloc p => .ok p.vars
  | .havoc .. | .skip | .halt | .callReturn => .ok .empty
  | .memset d v c => .ok ((d.vars.union v.vars).union c.vars)
  | .memcpy s d n => .ok ((s.vars.union d.vars).union n.vars)
  | .goto j => .ok (match j.target with
    | none => .empty
    | some t => t.vars.union j.condition.vars)
  | .assert e => .ok e.vars
  | .debug _ e => .ok e.vars
  | .unknownCall _ => .ok scratch

/-- The variables that change; a call of an unknown procedure changes the registers of the given
set. -/
def defines (scratch : VarSet) : Effect → Faulty VarSet
  | .assign v _ => .ok (.singleton v)
  | .template _ x _ => x.definedOnWrite
  | .alloc p _ => p.definedOnWrite
  | .havoc v _ => .ok (.singleton v)
  | .unknownCall _ => .ok scratch
  | _ => .ok .empty

def locations : Effect → Faulty (List Expr)
  | .assign _ e => .ok e.locations
  | .store m e => do return Expr.union (← m.locationsOnWrite) e.locations
  | .template _ x e => do return Expr.union (← x.locationsOnWrite) e.locations
  | .assume e _ => .ok e.locations
  | .alloc p _ => .ok p.locations
  | .goto j => .ok (match j.target with
    | none => []
    | some t => Expr.union t.locations j.condition.locations)
  | .assert e => .ok e.locations
  | _ => .ok []

end Effect

namespace Stmt

def ofEffect (e : Effect) : Stmt := ⟨none, none, e⟩

def text (names : SymbolNames) (s : Stmt) : Option String := s.effect.text names

/-- The text that stands for a statement in sequences and pictures. A statement without a text is
told by the number of its location. -/
def shown (names : SymbolNames) (s : Stmt) : String :=
  (s.text names).getD
    ("org.jakstab.rtl.statements.RTLCallReturn@" ++ Text.hex32 (31 + (s.label.map Label.hash).getD 0))

def equals (a b : Stmt) : Bool := a.label == b.label && a.effect.equals b.effect

def equalsCopy (s : Stmt) : Bool :=
  match s.effect with
  | .assign _ e | .assume e _ | .dealloc e | .assert e => e.equalsItself
  | .alloc p _ => p.equalsItself
  | .store x e | .template _ x e => x.equalsItself && e.equalsItself
  | .goto j => (j.target.map Expr.equalsItself).getD true && j.condition.equalsItself
  | _ => true

/-- The statement placed at a location. A jump without target goes to the instruction itself. -/
def placeAt (s : Stmt) (l : Label) : Stmt :=
  match s.effect with
  | .goto ⟨none, c, k⟩ =>
    { s with label := some l, effect := .goto ⟨some (.number l.address 32), c, k⟩ }
  | _ => { s with label := some l }

end Stmt

end FlowRecovery
