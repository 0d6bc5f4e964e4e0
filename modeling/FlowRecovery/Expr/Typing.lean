import FlowRecovery.Expr.Build

/-!
# Bit widths from the place of an expression

Specifications write numbers without a bit width. `Expr.inferWidth` gives an expression the bit
width that its place asks for, and fixes the widths of the numbers inside. `Expr.retype` tells in
addition whether the expression had to be built anew.
-/

namespace FlowRecovery

namespace Expr

def addressWidth : Int := 32

/-- How far the largest absolute value that is taken for one of `w` bits lies above `2 ^ (w - 1)`.
It is not there exactly, because the test is made with a rounded logarithm. -/
def roundingSlack (w : Int) : Int :=
  ([(30, -1), (32, -1), (40, -1), (48, -1), (50, 1), (51, 4), (52, -2), (53, 4), (54, 25), (55, 85), (56, -19),
    (57, 104), (58, 464), (59, -593), (60, -96), (61, 1919), (62, 8448), (63, -7425)] : List (Int × Int)).lookup w |>.getD 0

/-- The largest absolute value for which a number without width is taken for one of `w` bits. Past
64 bits, all are. -/
def magnitudeBound (w : Int) : Int := if w ≤ 0 then 0 else twoTo (min (w - 1) 64).toNat + roundingSlack w

def fits (v : Int64) (w : Int) : Bool :=
  v == 0 || (v != Int64.minValue && decide ((v.toInt.natAbs : Int) ≤ magnitudeBound w) && decide (w > 0))

def mismatch (e : Expr) (w expected : Int) : Fault :=
  if w > 0 then
    .typeMismatch ("Expected " ++ e.text ++ " to be " ++ toString expected ++ " bit, got " ++ toString w)
  else .violated (some "Bitwidth <= 0!")

def firstKnown : Int → List (Faulty Int) → Faulty Int
  | bw, [] => .ok bw
  | _, w :: ws => do
    let bw ← w
    if bw > 0 then return bw
    firstKnown bw ws

def attempt (r : Faulty (Option Expr)) : Faulty (Option Expr) :=
  match r with
  | .error (.typeMismatch _) => .ok none
  | r => r

mutual

/-- The expression with the bit width `expected`; nothing if it has that width as it is. -/
def retype : Expr → Int → Faulty (Option Expr)
  | .num v w, expected =>
    if w == expected then .ok none
    else if w ≤ 0 then
      if fits v expected then .ok (some (number v expected))
      else .error (.typeMismatch ("Expected bit width of " ++ toString expected ++
        " too small to hold numeric value of " ++ toString v.toInt ++ "!"))
    else if w < expected then .ok (some (number v expected))
    else .error (.typeMismatch (numberText v w ++ " expected to be of bitwidth " ++ toString expected))
  | .var v, expected =>
    if v.width == expected then .ok none
    else .error (.typeMismatch ("Expected " ++ v.name ++ " to be " ++ toString expected ++ " bits, but is " ++
      toString v.width))
  | .nondet w, expected => if w == expected then .ok none else .error (mismatch (.nondet w) w expected)
  | .special .., _ => .ok none
  | .bits x f l, expected => do
    let w ← width (.bits x f l)
    if w != expected then throw (mismatch (.bits x f l) w expected)
    let f' ← attempt (retype f 8)
    let l' ← attempt (retype l 8)
    return some (.bits x (f'.getD f) (l'.getD l))
  | .cond c t f, expected => do
    let c' ← retype c 1
    let t' ← retype t expected
    let f' ← retype f expected
    if c'.isNone && t'.isNone && f'.isNone then return none
    return some (conditional (c'.getD c) (t'.getD t) (f'.getD f))
  | .mem w a s _, expected => do
    if w != expected then
      throw (.typeMismatch ("Expected bitwidth of " ++ toString expected ++ ", but memory reference is " ++
        toString w ++ " bit."))
    match ← retype a addressWidth with
    | none => return none
    | some a' => some <$> memory w a' s 0
  | .op o as, expected =>
    match o with
    | .equal | .less | .lessOrEqual | .unsignedLess | .unsignedLessOrEqual => do
      if expected != 1 then throw (.typeMismatch "TypeInferenceException")
      let bw ← firstKnown unknownWidth (widths as)
      if bw ≤ 0 then throw (.typeMismatch ("Cannot infer type for " ++ text (.op o as) ++ "!"))
      some <$> (retypeAll as bw >>= operation o)
    | .plus | .and | .or | .xor | .neg | .not | .floatMul | .floatDiv => do
      some <$> (retypeAll as expected >>= operation o)
    | .shr | .sar | .shl | .rol | .rolc | .ror | .rorc =>
      match as with
      | [] => .error .outsideArray
      | [a] => do
        let _ ← retype a expected
        throw .outsideArray
      | a :: d :: rest => do
        let a' ← retype a expected
        let d' ← attempt (retype d 8)
        if rest.isEmpty then some <$> operation o [a'.getD a, d'.getD d] else .error .absent
    | .mod | .div =>
      match as with
      | [] | [_] => .error .outsideArray
      | a :: d :: rest => do
        let d' ← retype d expected
        if rest.isEmpty then some <$> operation o [a, d'.getD d] else .error .absent
    | .mul =>
      match as with
      | [a, b] => do
        let a' ← retype a (Int.tdiv expected 2)
        let b' ← retype b (Int.tdiv expected 2)
        some <$> operation o [a'.getD a, b'.getD b]
      | _ => .error (.violated none)
    | .powerOf => .ok none
    | .cast => do
      let w ← operand as 1 >>= literal
      if expected != w then throw (.typeMismatch "TypeInferenceException")
      return none
    | .signExtend | .zeroFill =>
      match as with
      | from_ :: to_ :: x :: rest => do
        let first ← literal from_
        let from' ← retype from_ 8
        let last ← literal to_
        let to' ← retype to_ 8
        let target := wrap32 (last + 1)
        if target != expected then
          throw (.typeMismatch ("Bit extension to " ++ toString target ++ "bits, expected " ++ toString expected))
        let x' ← retype x first
        if rest.isEmpty then some <$> operation o [from'.getD from_, to'.getD to_, x'.getD x] else .error .absent
      | _ => .error .outsideArray
    | .floatResize =>
      match as with
      | from_ :: to_ :: x :: rest => do
        let first ← literal from_
        let from' ← retype from_ 8
        let last ← literal to_
        let to' ← retype to_ 8
        if last != expected then
          throw (.typeMismatch ("Round to " ++ toString last ++ "bits, expected " ++ toString expected))
        let x' ← retype x first
        if rest.isEmpty then some <$> operation o [from'.getD from_, to'.getD to_, x'.getD x] else .error .absent
      | _ => .error .outsideArray
    | .unknown => .error (.failure (some "Unhandled bitwidth case: UNKNOWN"))

/-- All expressions of a list with the bit width `expected`. -/
def retypeAll : List Expr → Int → Faulty (List Expr)
  | [], _ => .ok []
  | a :: as, expected => do
    let a' ← retype a expected
    return a'.getD a :: (← retypeAll as expected)

end

def inferWidth (e : Expr) (expected : Int) : Faulty Expr := do
  return (← retype e expected).getD e

end Expr

end FlowRecovery
