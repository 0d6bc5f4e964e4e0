import FlowRecovery.Fault
import FlowRecovery.Word
import FlowRecovery.Expr.Operator

/-!
# Bit-vector expressions

`Expr` is the language in which the effect of machine instructions is written down: numbers of a bit
width, variables (registers, flags, temporaries), operations, bit ranges, conditional expressions,
memory locations, unspecified values, and named operations without a meaning of their own
(`special`).

* `Expr.equals` is the equality that the library works with. It is structural, except that an
  unspecified value equals nothing, unless it stands at the same place of the operand lists of two
  operations.
* `Expr.width` is the bit width; the bit width of a bit range with computed ends cannot be told.
* `Expr.text` and `Expr.hexText` print an expression.
-/

namespace FlowRecovery

/-- A variable: a register, a flag, a temporary or a parameter of an instruction. Variables are
numbered in the order of their declaration, and two variables with the same number are the same. -/
structure Var where
  index : Nat
  name : String
  width : Int
  deriving DecidableEq, Inhabited

/-- An expression over bit vectors. -/
inductive Expr where
  | num (value : Int64) (width : Int)
  | var (v : Var)
  | op (operator : Operator) (operands : List Expr)
  /-- The bits of `operand` from position `first` to position `last`. -/
  | bits (operand first last : Expr)
  | cond (condition ifTrue ifFalse : Expr)
  /-- The `width` bits of memory at an address of a segment; `state` numbers memories that are told
  apart. -/
  | mem (width : Int) (address : Expr) (segment : Option Expr) (state : Int)
  | special (name : String) (operands : List Expr)
  | nondet (width : Int)
  deriving Inhabited

namespace Expr

def tt : Expr := .num (-1) 1

def ff : Expr := .num 0 1

def ofBool (b : Bool) : Expr := if b then tt else ff

/-- The number with the low `width` bits of `value`; with one bit, every value but zero is *true*.
-/
def number (value : Int64) (width : Int) : Expr :=
  if width == 1 then ofBool (value != 0) else .num (Word.truncate value width) width

def value? : Expr → Option Int64
  | .num v _ => some v
  | _ => none

def isNumber (e : Expr) : Bool := e.value?.isSome

def isPlace : Expr → Bool
  | .var _ | .bits .. | .mem .. => true
  | _ => false

/-! ### Equality -/

def sharedNondet : Expr → Expr → Bool
  | .nondet w, .nondet w' => w == w'
  | _, _ => false

mutual

/-- Equality of expressions. An unspecified value differs from every value. -/
def equals : Expr → Expr → Bool
  | .num v w, .num v' w' => v == v' && w == w'
  | .var x, .var y => x.index == y.index && x.name == y.name
  | .op o as, .op o' bs => o == o' && equalOperands as bs
  | .bits x f l, .bits x' f' l' => equals x x' && equals f f' && equals l l'
  | .cond c t f, .cond c' t' f' => equals c c' && equals t t' && equals f f'
  | .mem w a s n, .mem w' a' s' n' => equals a a' && w == w' && n == n' && equalSegments s s'
  | .special n as, .special n' bs => n == n' && equalOperands as bs
  | _, _ => false

def equalOperands : List Expr → List Expr → Bool
  | [], [] => true
  | a :: as, b :: bs => (sharedNondet a b || equals a b) && equalOperands as bs
  | _, _ => false

def equalSegments : Option Expr → Option Expr → Bool
  | none, none => true
  | some a, some b => sharedNondet a b || equals a b
  | _, _ => false

end

/-- Is the expression, taken as one and the same value, equal to itself? Operands of an operation
always are, an unspecified value outside of them never. -/
def equalsItself : Expr → Bool
  | .nondet _ => false
  | .bits x f l => x.equalsItself && f.equalsItself && l.equalsItself
  | .cond c t f => c.equalsItself && t.equalsItself && f.equalsItself
  | .mem _ a _ _ => a.equalsItself
  | _ => true

def isIn (e : Expr) (es : List Expr) : Bool := es.any (equals e)

/-- The list with `e` at its end, unless an equal expression is in it already. -/
def insertLast (es : List Expr) (e : Expr) : List Expr := if e.isIn es then es else es ++ [e]

def union (es fs : List Expr) : List Expr := fs.foldl insertLast es

/-! ### Size and width -/

mutual

def size : Expr → Nat
  | .op _ as => 1 + sizes as
  | .special _ as => 1 + sizes as
  | .bits x f l => 1 + size x + size f + size l
  | .cond c t f => 1 + size c + size t + size f
  | .mem _ a s _ => 1 + size a + segmentSize s
  | _ => 1

def sizes : List Expr → Nat
  | [] => 0
  | a :: as => size a + sizes as

def segmentSize : Option Expr → Nat
  | none => 0
  | some s => size s

end

def specialWidth (name : String) : Int :=
  if name == "tickcount" then 64
  else if name == "getProcAddress" || name == "dbgPrintf" then 32
  else 80

/-- The widest of the given widths; unknown as soon as one of them is. -/
def commonWidth : List (Faulty Int) → Faulty Int
  | [] => .error .outsideArray
  | w :: ws => do
    let first ← w
    if first ≤ 0 then return unknownWidth
    go first ws
where
  go (bw : Int) : List (Faulty Int) → Faulty Int
    | [] => .ok bw
    | w :: ws => do
      let next ← w
      if next ≤ 0 then return unknownWidth
      go (max bw next) ws

def operand (as : List α) (n : Nat) : Faulty α :=
  match as[n]? with
  | some a => .ok a
  | none => .error .outsideArray

def literal : Expr → Faulty Int
  | .num v _ => .ok (Word.low32 v)
  | _ => .error .wrongKind

def operationWidth (o : Operator) (as : List Expr) (ws : List (Faulty Int)) : Faulty Int :=
  match o with
  | .equal | .less | .lessOrEqual | .unsignedLess | .unsignedLessOrEqual => .ok 1
  | .mod | .div => operand ws 1 >>= id
  | .neg | .not | .powerOf | .shr | .sar | .shl | .rol | .rolc | .ror | .rorc => operand ws 0 >>= id
  | .plus | .floatMul | .floatDiv | .and | .or | .xor => commonWidth ws
  | .mul => do
    let w ← commonWidth ws
    return if w == unknownWidth then unknownWidth else wrap32 (w * 2)
  | .cast | .floatResize => operand as 1 >>= literal
  | .signExtend | .zeroFill => do
    let last ← operand as 1 >>= literal
    let w ← operand ws 2 >>= id
    return max (wrap32 (last + 1)) w
  | .unknown => .error (.failure (some "Unhandled bitwidth case: UNKNOWN"))

/-! ### Text -/

def numberText (v : Int64) (w : Int) : String :=
  if w == 1 then (if v == 0 then "false" else "true") else toString v.toInt

/-- The hexadecimal text of a number, followed by its width in angle brackets. A negative number is
cut to the digits of its width. -/
def numberHexText (v : Int64) (w : Int) : String :=
  let digits := Text.hex32 v.toInt
  let digits := if v < 0 && w > 0 then Text.takeRight (w / 4).toNat digits else digits
  "0x" ++ digits ++ "<" ++ (if w == unknownWidth then "?" else toString w) ++ ">"

def rangeText (first last : Expr) (firstText lastText : String) : String :=
  match first, last with
  | .num f _, .num l _ =>
    let f := Word.low32 f
    let l := Word.low32 l
    if f == l then toString f else toString f ++ ":" ++ toString l
  | _, _ => firstText ++ ":" ++ lastText

def operationText (o : Operator) (texts : List String) : String :=
  if o.isFunctional then o.sign ++ "(" ++ ", ".intercalate texts ++ ")"
  else match texts with
    | [] => "(" ++ o.sign ++ ")"
    | [t] => "(" ++ o.sign ++ " " ++ t ++ ")"
    | ts => "(" ++ (" " ++ o.sign ++ " ").intercalate ts ++ ")"

def memoryText (w : Int) (state : Int) (segment : Option String) (address : String) : String :=
  "mem" ++ (if w > 0 then toString w else "") ++ String.ofList (List.replicate state.toNat '\'') ++ "[" ++
    (match segment with | some s => s ++ ":" | none => "") ++ address ++ "]"

mutual

def text : Expr → String
  | .num v w => numberText v w
  | .var v => v.name
  | .op o as => operationText o (texts as)
  | .bits x f l => text x ++ "@[" ++ rangeText f l (text f) (text l) ++ "]"
  | .cond c t f => "(" ++ text c ++ " ? " ++ text t ++ " : " ++ text f ++ ")"
  | .mem w a s n =>
    memoryText w n (segmentText s) (match a with | .num v w' => numberHexText v w' | e => text e)
  | .special name [] => name
  | .special name as => name ++ "(" ++ ", ".intercalate (texts as) ++ ")"
  | .nondet w => "nondet" ++ toString w

def texts : List Expr → List String
  | [] => []
  | a :: as => text a :: texts as

def segmentText : Option Expr → Option String
  | none => none
  | some s => some (text s)

end

def hexText : Expr → String
  | .num v w => numberHexText v w
  | e => e.text

mutual

def width : Expr → Faulty Int
  | .num _ w => .ok w
  | .var v => .ok v.width
  | .op o as => operationWidth o as (widths as)
  | .bits _ (.num f _) (.num l _) => .ok (wrap32 (Word.low32 l - Word.low32 f + 1))
  | .bits _ f l =>
    if equals f l then .ok 1
    else .error (.violated (some ("Cannot determine bitwidth for bitrange from " ++ text f ++ " to " ++ text l)))
  | .cond _ t _ => width t
  | .mem w _ _ _ => .ok w
  | .special name _ => .ok (specialWidth name)
  | .nondet w => .ok w

def widths : List Expr → List (Faulty Int)
  | [] => []
  | a :: as => width a :: widths as

end

end Expr

end FlowRecovery
