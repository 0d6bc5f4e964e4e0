import FlowRecovery.Expr.Build
import FlowRecovery.Expr.Uses

/-!
# Evaluation of expressions

`Expr.evaluate` computes as much of an expression as a context tells. A context *substitutes*
expressions for variables, and *assigns* values to variables and memory locations. What stays
unknown stays in the result, so evaluation is partial evaluation; when every variable has a number,
the result is a number.

The rules of an operation are tried in this order, on evaluated operands (`reduce`):

* `identityRule`: neutral and absorbing operands, repeated and opposite operands, negations of
  negations;
* `mergeComparisons`: *less* or *equal* is *less or equal*;
* `foldConstants`: the numbers among the operands are combined.

Values of a context can mention what the context assigns, so evaluation need not end; it stops at a
depth that grows with the size of the expression.
-/

namespace FlowRecovery

/-- What is known about the values of variables and memory locations. -/
structure Context where
  substitutions : List (Expr × Expr)
  assignments : List (Expr × Expr)

variable (c : Context) (e : Expr)

namespace Context

def empty : Context := ⟨[], []⟩

def lookup (pairs : List (Expr × Expr)) (e : Expr) : Option Expr :=
  (pairs.find? (fun p => p.1.equals e)).map Prod.snd

def put : List (Expr × Expr) → Expr → Expr → List (Expr × Expr)
  | [], e, x => [(e, x)]
  | p :: ps, e, x => if p.1.equals e then (p.1, x) :: ps else p :: put ps e x

def checkKey : Expr → Faulty Unit
  | .bits .. => .error (.violated none)
  | e => if e.isPlace then .ok () else .error .wrongKind

def substitute (e x : Expr) : Faulty Context := do
  checkKey e
  return { c with substitutions := put c.substitutions e x }

def assign (e x : Expr) : Faulty Context := do
  checkKey e
  return { c with assignments := put c.assignments e x }

def forget : Context :=
  { c with assignments := c.assignments.filter (fun p => !p.1.equals e) }

def forgetAll (s : VarSet) : Context :=
  { c with assignments := c.assignments.filter (fun p =>
      match p.1 with
      | .var v => !s.contains v
      | _ => true) }

/-- What stands for the place `e`; the place itself, if nothing does. -/
def substitution : Expr := (lookup c.substitutions e).getD e

/-- The value of the place `e`; the place itself, if it has none. -/
def assignment : Expr := (lookup c.assignments e).getD e

def valueOf (v : Var) : Expr :=
  let e := c.substitution (.var v)
  if e.isPlace then c.assignment e else e

def keeps (c : Context) : Expr → Bool
  | .num .. | .nondet _ => true
  | .var v => (c.valueOf v).equals (.var v)
  | .mem w a s n => (lookup c.assignments (.mem w a s n)).isNone && keeps c a
  | _ => false

end Context

namespace Expr

/-! ### Operands with a role -/

def isZero : Bool := e.value? == some 0

def isAllOnes : Bool := e.value? == some (-1)

/-- How a rule goes on: with a finished result, or with an expression that is evaluated again. -/
inductive Reduction where
  | done (e : Expr)
  | again (e : Expr)

variable (o : Operator)

/-- The operation without its operand at place `i`. The bit width has to stay. -/
def dropOperand (old : List Expr) (as : List Expr) (i : Nat) : Faulty Expr := do
  match as with
  | [] | [_] => throw (.violated none)
  | [a, b] => return if i == 0 then b else a
  | _ =>
    let rest := as.eraseIdx i
    let w ← operationWidth o old (widths old)
    if w != unknownWidth then
      let w' ← operationWidth o rest (widths rest)
      if w' != w then
        throw (.violated (some ("Bitwidth of " ++ text (.op o old) ++ " changed from " ++ toString w ++ " to " ++
          toString w' ++ " on removal of operand " ++ toString i ++ "!")))
    operation o rest

def negationIn (a : Expr) : List Expr → Faulty Bool
  | [] => .ok false
  | b :: bs => do
    if b.equals (← not a) then return true
    negationIn a bs

variable (as : List Expr)

def dropTwo (i j : Nat) : List Expr := (as.eraseIdx (max i j)).eraseIdx (min i j)

def scan (rule : Nat → Expr → List Expr → Faulty (Option Reduction)) :
    Nat → List Expr → Faulty (Option Reduction)
  | _, [] => .ok none
  | i, a :: as => do
    match ← rule i a as with
    | some r => return some r
    | none => scan rule (i + 1) as

/-- Operands of a conjunction: zero, repeated, opposite, all ones. -/
def andRule (w : Int) (old as : List Expr) (i : Nat) (a : Expr) (later : List Expr) :
    Faulty (Option Reduction) := do
  if a.isZero then return some (.done (number 0 w))
  if later.any (fun b => b.equals a) then return some (.again (← dropOperand .and old as i))
  if ← negationIn a later then return some (.done (number 0 w))
  if a.isAllOnes then return some (.again (← dropOperand .and old as i))
  return none

/-- What a disjunction of opposite operands is taken for: the number whose negative is the exclusive
or of 2 and the position of the highest bit. -/
def eitherOpposite (w : Int) : Expr := number (-(2 ^^^ Int64.ofInt (wrap32 (w - 1)))) w

/-- Operands of a disjunction: all ones, repeated, opposite, zero. -/
def orRule (w : Int) (old as : List Expr) (i : Nat) (a : Expr) (later : List Expr) :
    Faulty (Option Reduction) := do
  if a.isAllOnes then return some (.done (number (-1) w))
  if later.any (fun b => b.equals a) then return some (.again (← dropOperand .or old as i))
  if ← negationIn a later then return some (.done (eitherOpposite w))
  if a.isZero then return some (.again (← dropOperand .or old as i))
  return none

def remainingSum (w' : Int) : List Expr → Faulty Reduction
  | [] => .ok (.done (number 0 w'))
  | [x] => .ok (.done x)
  | rest => do return .again (← operation .plus rest)

/-- Operands of a sum: zero, and an operand with its negative. -/
def plusRule (w' : Int) (old as : List Expr) (i : Nat) (a : Expr) (_ : List Expr) :
    Faulty (Option Reduction) := do
  if a.isZero then return some (.again (← dropOperand .plus old as i))
  match a with
  | .op .neg (b :: _) =>
    match as.findIdx? (fun x => b.equals x) with
    | none => return none
    | some j => return some (← remainingSum w' (dropTwo as i j))
  | _ => return none

def mulRule (w : Int) (_ : Nat) (a : Expr) (_ : List Expr) : Faulty (Option Reduction) :=
  .ok (if a.isZero then some (.done (number 0 w)) else none)

def notOperand? : Expr → Option Expr
  | .op .not (a :: _) => some a
  | _ => none

def notRule (a : Expr) : Faulty (Option Reduction) :=
  match a with
  | .op o as =>
    if o == .and || o == .or then
      match as.mapM notOperand? with
      | some bs => do return some (.done (← operation (if o == .and then .or else .and) bs))
      | none => .ok none
    else .ok none
  | _ => .ok none

/-- Two operands of an exclusive or: equal, zero, all ones. -/
def xorRule (w : Int) (a b : Expr) : Faulty (Option Reduction) := do
  if a.equals b then return some (.done (number 0 w))
  if a.isZero then return some (.done b)
  if b.isZero then return some (.done a)
  if a.isAllOnes then return some (.again (← not b))
  if b.isAllOnes then return some (.again (← not a))
  return none

def equalRule (a b : Expr) : Faulty (Option Reduction) := do
  if a.equals b then return some (.done tt)
  if tt.equals a then return some (.done b)
  if tt.equals b then return some (.done a)
  if ff.equals a then return some (.again (← not b))
  if ff.equals b then return some (.again (← not a))
  return none

def extend (signed : Bool) (first last : Int) (v : Int64) (w : Int) : Expr :=
  let target := max w (wrap32 (last + 1))
  if signed then
    if (v &&& Word.bitMask (w - 1) (w - 1)) > 0 then number (v ||| Word.bitMask first last) target
    else number v target
  else number (v &&& (Word.bitMask 0 (first - 1) ||| Word.bitMask (last + 1) (target - 1))) target

def extensionRule : Faulty Expr :=
  match as with
  | [.num first _, .num last _, .num v w] =>
    .ok (extend (o == .signExtend) (Word.low32 first) (Word.low32 last) v w)
  | [_, _, _] => operation o as
  | _ => .error (.violated none)

def castRule : Faulty Expr :=
  match as with
  | [a, .num n _] => do
    let w ← a.width
    let target := Word.low32 n
    if w == target then return a
    zeroFill (number (Int64.ofInt (wrap32 (w + 1))) 8) (number (Int64.ofInt (wrap32 (target - 1))) 8) a
  | _ => .error (.violated none)

/-- The rules that need not all operands to be numbers. `w` is the bit width of the operation, `old`
its operands, `as` their values, and `w'` the bit width that the operation has on these. -/
def identityRule (w w' : Int) (old as : List Expr) : Faulty (Option Reduction) :=
  match o, as with
  | .cast, _ => do return some (.done (← castRule as))
  | .signExtend, _ | .zeroFill, _ => do return some (.done (← extensionRule o as))
  | .floatResize, [_, _, _] => do return some (.done (← operation o as))
  | .floatResize, _ => .error (.violated none)
  | .xor, [a, b] => xorRule w a b
  | .equal, [a, b] => equalRule a b
  | .and, _ => scan (andRule w old as) 0 as
  | .or, _ => scan (orRule w old as) 0 as
  | .plus, _ => scan (plusRule w' old as) 0 as
  | .mul, _ => scan (mulRule w) 0 as
  | .not, a :: _ => notRule a
  | _, _ => .ok none

/-- *Less* or *equal* of the same operands is *less or equal*. -/
def mergeComparisons : Faulty (Option Expr) :=
  match o, as with
  | .or, [.op p [a, b], .op q [a', b']] =>
    if a.equals a' && b.equals b' then
      if (p == .unsignedLess && q == .equal) || (q == .unsignedLess && p == .equal) then
        some <$> unsignedLessOrEqual a b
      else if (p == .less && q == .equal) || (q == .less && p == .equal) then
        some <$> lessOrEqual a b
      else .ok none
    else .ok none
  | _, _ => .ok none

/-! ### Numbers -/

/-- Order of unsigned numbers, for words that agree in their sign in the order `le` of signed ones.
-/
def unsignedOrder (le : Int64 → Int64 → Bool) (a b : Int64) : Bool :=
  if a < 0 && b ≥ 0 then false else if b < 0 && a ≥ 0 then true else le a b

def truthWord (b : Bool) : Int64 := if b then -1 else 0

/-- The value of an operation on two or more numbers; nothing for a division by zero, and for
operators without a meaning. -/
def computeMany (a b : Int64) (all : List Int64) : Option Int64 :=
  match o with
  | .mul => some (all.foldl (· * ·) 1)
  | .plus => some (all.foldl (· + ·) 0)
  | .and => some (all.foldl (· &&& ·) (-1))
  | .or => some (all.foldl (· ||| ·) 0)
  | .equal => some (truthWord (a == b))
  | .less => some (truthWord (a < b))
  | .lessOrEqual => some (truthWord (a ≤ b))
  | .unsignedLess => some (truthWord (unsignedOrder (· < ·) a b))
  | .unsignedLessOrEqual => some (truthWord (unsignedOrder (· ≤ ·) a b))
  | .shl => some (Word.shiftLeft a b.toInt)
  | .shr => some (Word.shiftRightZero (Word.unsigned32 a) b.toInt)
  | .sar => some (Word.shiftRight a b.toInt)
  | .xor => some (a ^^^ b)
  | .div => if b == 0 then none else some (a / b)
  | .mod => if b == 0 then none else some (a % b)
  | _ => none

def computeOne (a : Int64) : Option Int64 :=
  match o with
  | .neg => some (-a)
  | .not => some (~~~a)
  | _ => none

/-- The value of an operation with `count` operands on the numbers among them. -/
def compute (count : Nat) (numbers : List Int64) : Option Int64 :=
  match numbers with
  | [a] => if count == 1 then computeOne o a else none
  | a :: b :: _ => computeMany o a b numbers
  | [] => none

def foldConstants (w' : Int) (as : List Expr) : Faulty Expr :=
  match compute o as.length (as.filterMap value?) with
  | none => operation o as
  | some v =>
    match as.filter (fun a => !a.isNumber) with
    | [] => .ok (number v w')
    | rest => operation o (rest ++ [number v w'])

/-- What becomes of an operation with evaluated operands. The widths and operands are those of
`identityRule`. -/
def reduce (w w' : Int) (old as : List Expr) : Faulty Reduction := do
  match ← identityRule o w w' old as with
  | some r => return r
  | none =>
    match ← mergeComparisons o as with
    | some r => return .done r
    | none => return .done (← foldConstants o w' as)

def extract (first last : Int) (v : Int64) : Expr :=
  number (Word.shiftRight (Word.bitMask first last &&& v) first) (wrap32 (last - first + 1))

def foldBits (x first last : Expr) : Expr :=
  match first, last with
  | .num f _, .num l _ =>
    let f := Word.low32 f
    let l := Word.low32 l
    match x with
    | .var v => if f == 0 && v.width == wrap32 (l + 1) then x else .bits x first last
    | .num v _ => extract f l v
    | _ => .bits x first last
  | _, _ => .bits x first last

def foldConditional (c t f : Expr) : Faulty Expr :=
  if t.equals tt && f.equals ff then .ok c
  else if t.equals ff && f.equals tt then not c
  else .ok (conditional c t f)

/-! ### The evaluator -/

def evaluateTo (c : Context) : Nat → Expr → Faulty Expr
  | 0, _ => .error .tooDeep
  | depth + 1, e =>
    match e with
    | .num .. | .nondet _ => .ok e
    | .var v => .ok (c.valueOf v)
    | .bits x first last => do
      let x ← evaluateTo c depth x
      let first ← evaluateTo c depth first
      let last ← evaluateTo c depth last
      return foldBits x first last
    | .cond b t f => do
      let b ← evaluateTo c depth b
      if b.equals ff then evaluateTo c depth f
      else if b.equals tt then evaluateTo c depth t
      else if b.isNumber then
        throw (.violated (some ("Numeric condition result is neither TRUE nor FALSE but " ++ b.text)))
      else
        let t ← evaluateTo c depth t
        let f ← evaluateTo c depth f
        foldConditional b t f
    | .mem .. =>
      match c.assignment e with
      | .mem w a s n => do
        let m ← if c.keeps a then pure (.mem w a s n)
          else do memory w (← evaluateTo c depth a) s 0
        return c.assignment m
      | x => evaluateTo c depth x
    | .special name as => do named name (← as.mapM (evaluateTo c depth))
    | .op o old => do
      if old.isEmpty then throw (.violated none)
      let as ← old.mapM (evaluateTo c depth)
      let w' ← operationWidth o as (widths as)
      if w' == 0 then throw (.violated (some e.text))
      let w ← operationWidth o old (widths old)
      match ← reduce o w w' old as with
      | .done r => return r
      | .again r => evaluateTo c depth r

def depth : Nat := 16 * e.size + 2000

def evaluate : Faulty Expr := evaluateTo c e.depth e

end Expr

end FlowRecovery
