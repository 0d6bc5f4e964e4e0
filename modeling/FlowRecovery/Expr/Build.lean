import FlowRecovery.Expr.Basic

/-!
# Building expressions

Every expression of the library is built by the functions of this module, which keep a few normal
forms:

* nested sums, conjunctions and disjunctions are written as one operation;
* there is no double negation, and the negative of a sum is a sum of negatives;
* the condition of a conditional expression is no negation;
* the bit width of an operation is one, unknown, or a multiple of eight.
-/

namespace FlowRecovery

namespace Expr

variable (o : Operator)

/-- The operands of an operation with the operator `o`. -/
def operandsOf : Expr → Option (List Expr)
  | .op o' as => if o' == o then some as else none
  | _ => none

/-- The operands where every application of `o` itself is replaced by its own operands, which move
to the end. -/
def flatten (as : List Expr) : List Expr :=
  as.filter (fun a => (operandsOf o a).isNone) ++ as.flatMap (fun a => (operandsOf o a).getD [])

def apply (as : List Expr) : Faulty Expr := do
  let w ← operationWidth o as (widths as)
  if w == 1 || w % 8 == 0 then return .op o as
  throw (.violated (some
    ("Bitwidth not a multiple of 8: " ++ toString w ++ ". Operation was " ++ text (.op o as))))

def negated : Expr → Faulty Expr
  | .op .neg (a :: _) => .ok a
  | a => apply .neg [a]

def operation (as : List Expr) : Faulty Expr :=
  match o with
  | .plus | .and | .or => apply o (flatten o as)
  | .not =>
    match as with
    | [] => .error .outsideArray
    | .op .not (a :: _) :: _ => .ok a
    | _ => apply .not as
  | .neg =>
    match as with
    | [] => .error .outsideArray
    | .op .neg (a :: _) :: _ => .ok a
    | .op .plus summands :: _ => do apply .plus (← summands.mapM negated)
    | _ => apply .neg as
  | _ => apply o as

def conditional : Expr → Expr → Expr → Expr
  | .op .not (c :: _), t, f => .cond c f t
  | c, t, f => .cond c t f

def memory (width : Int) (address : Expr) (segment : Option Expr) (state : Int) : Faulty Expr :=
  if width > 0 then .ok (.mem width address segment state)
  else .error (.violated (some
    ("Trying to create memory location of unknown width with address " ++ address.text ++ "!")))

def unspecified (width : Int) : Faulty Expr :=
  if 1 ≤ width ∧ width ≤ 128 then .ok (.nondet width) else .error .outsideArray

/-- A named operation. The name `addr` takes the address of a memory location, and `nondet` makes an
unspecified value. -/
def named (name : String) (as : List Expr) : Faulty Expr :=
  if name == "addr" then
    match as with
    | [] => .error .outsideArray
    | .mem _ a _ _ :: _ => .ok a
    | _ => .ok (.special name as)
  else if name == "nondet" then
    match as with
    | [] => .error .outsideArray
    | a :: _ => literal a >>= unspecified
  else .ok (.special name as)

/-! ### Operations by name -/

def plus (as : List Expr) : Faulty Expr := operation .plus as

def plusConstant (a : Expr) (c : Int64) : Faulty Expr := do
  plus [a, number c (← a.width)]

def not (a : Expr) : Faulty Expr := operation .not [a]

def neg (a : Expr) : Faulty Expr := operation .neg [a]

variable (a b : Expr)

def minus : Faulty Expr := do plus [a, ← neg b]

def and (a b : Expr) : Faulty Expr := operation .and [a, b]

def or (a b : Expr) : Faulty Expr := operation .or [a, b]

def implies : Faulty Expr := do or (← not a) b

def equal (a b : Expr) : Faulty Expr := operation .equal [a, b]

def notEqual : Faulty Expr := equal a b >>= not

def less (a b : Expr) : Faulty Expr := operation .less [a, b]

def lessOrEqual (a b : Expr) : Faulty Expr := operation .lessOrEqual [a, b]

def greaterOrEqual : Faulty Expr := less a b >>= not

def unsignedLess (a b : Expr) : Faulty Expr := operation .unsignedLess [a, b]

def unsignedLessOrEqual (a b : Expr) : Faulty Expr := operation .unsignedLessOrEqual [a, b]

def unsignedGreaterOrEqual : Faulty Expr := unsignedLess a b >>= not

/-- `a` with zeros from position `first` to position `last`. -/
def zeroFill (first last : Expr) (a : Expr) : Faulty Expr := operation .zeroFill [first, last, a]

/-- `a` with copies of its highest bit from position `first` to position `last`. -/
def signExtend (first last : Expr) (a : Expr) : Faulty Expr := operation .signExtend [first, last, a]

/-- `a` with the bits of the range from `first` to `last` replaced by `b`, where the bits are
written out with masks and shifts. -/
def insertBits (a first last : Expr) (b : Expr) : Faulty Expr := do
  let f ← literal first
  let l ← literal last
  let aw ← a.width
  let keep := Word.bitMask 0 (f - 1) ||| Word.bitMask (l + 1) aw
  let bw ← b.width
  let aw' := wrap32 (aw - 1)
  let filled ← zeroFill (number (Int64.ofInt bw) 8) (number (Int64.ofInt aw') 8) b
  let placed ← if f == 0 then pure filled else operation .shl [filled, first]
  let kept ← and a (number keep aw)
  or kept placed

end Expr

end FlowRecovery
