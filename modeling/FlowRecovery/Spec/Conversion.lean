import FlowRecovery.Spec.Expansion
import FlowRecovery.Stmt.Basic

/-!
# Statements out of register transfers

`convert` turns the expanded body of an instruction into statements. The width of an assignment is
handed down to its expressions: a positive width is that of the place assigned to and so of a
variable, a negative one is that of the value, whose memory accesses get it while its variables keep
their own.
-/

namespace FlowRecovery.Spec

abbrev Conversion := StateT Registers Faulty

def variableOf (name : Chars) (width : Int) : Conversion Expr := do
  let (v, r) ← (← get).obtain (String.ofList name) width
  set r
  return .var v

def binary? : Kind → Option (Expr → Expr → Faulty Expr)
  | .eq => some Expr.equal
  | .ne => some Expr.notEqual
  | .gt => some (fun a b => Expr.less b a)
  | .lt => some Expr.less
  | .ge => some Expr.greaterOrEqual
  | .le => some Expr.lessOrEqual
  | .gtu => some (fun a b => Expr.unsignedLess b a)
  | .ltu => some Expr.unsignedLess
  | .geu => some Expr.unsignedGreaterOrEqual
  | .leu => some Expr.unsignedLessOrEqual
  | .plus | .plusF | .plusFD | .plusFQ => some (fun a b => Expr.plus [a, b])
  | .minus | .minusF | .minusFD | .minusFQ => some Expr.minus
  | .mul | .smul => some (operate .mul)
  | .mulF | .mulFD | .mulFQ | .mulFSD | .mulFDQ => some (operate .floatMul)
  | .div | .sdiv => some (operate .div)
  | .divF | .divFD | .divFQ => some (operate .floatDiv)
  | .mod | .smod => some (operate .mod)
  | .pow => some (operate .powerOf)
  | .and | .land => some Expr.and
  | .or | .lor => some Expr.or
  | .xor => some (operate .xor)
  | .andNot => some (fun a b => do Expr.and a (← Expr.not b))
  | .orNot => some (fun a b => do Expr.or a (← Expr.not b))
  | .xorNot => some (fun a b => do operate .xor a (← Expr.not b))
  | .rlc => some (operate .rolc)
  | .rrc => some (operate .rorc)
  | .rl => some (operate .rol)
  | .rr => some (operate .ror)
  | .rshift => some (operate .shr)
  | .lshift => some (operate .shl)
  | .rshiftA => some (operate .sar)
  | _ => none
where
  operate (o : Operator) (a b : Expr) : Faulty Expr := Expr.operation o [a, b]

def unary? : Kind → Option (Expr → Faulty Expr)
  | .not | .lnot => some Expr.not
  | .fneg => some Expr.neg
  | _ => none

def isExpression (k : Kind) : Bool :=
  (binary? k).isSome || (unary? k).isSome ||
    [Kind.name, .register, .num, .floatNum, .memoryIndex, .cast, .atSign, .quest, .builtin].contains k

def wholePart (text : Chars) : Int64 :=
  let (negative, ds) := match text with
    | '-' :: ds => (true, ds)
    | ds => (false, ds)
  let before := ds.takeWhile Char.isDigit
  let after := (ds.dropWhile Char.isDigit).drop 1
  let digits := (before ++ after).foldl (fun n c => n * 10 + (c.toNat - '0'.toNat)) 0
  let x := Float.ofScientific digits true after.length
  (if negative then -x else x).toInt64

def builtin (name : String) (as : List Expr) : Faulty Expr :=
  let three (o : Operator) : Faulty Expr :=
    match as with
    | a :: b :: c :: _ => Expr.operation o [a, b, c]
    | _ => .error .absent
  match name with
  | "sgnex" => three .signExtend
  | "zfill" => three .zeroFill
  | "fsize" | "ftoi" | "itof" => three .floatResize
  | "addr" => if as.isEmpty then .ok (.special name []) else Expr.named name as
  | "nondet" => if as.isEmpty then .error .absent else Expr.named name as
  | _ => Expr.named name as

def handedDown (width : Int) : Int := if width > 0 then width else unknownWidth

def absolute (width : Int) : Int := if width < 0 then wrap32 (-width) else width

mutual

def convertExpr : Nat → Int → List Tree → Conversion (Expr × List Tree)
  | 0, _, _ => throw .tooDeep
  | _, _, [] => throw (meaningless [])
  | fuel + 1, w, t :: rest =>
    match binary? t.kind, unary? t.kind with
    | some f, _ => do
      let (a, ts) ← convertExpr fuel w t.children
      let (b, _) ← convertExpr fuel w ts
      return (← f a b, rest)
    | _, some f => do
      let (a, _) ← convertExpr fuel w t.children
      return (← f a, rest)
    | none, none =>
      match t.kind with
      | .name | .register => do return (← variableOf t.text (handedDown w), rest)
      | .num => do return (.number (Int64.ofInt (← int32 t.text)) unknownWidth, rest)
      | .floatNum => return (.number (wholePart t.text) 80, rest)
      | .memoryIndex => do
        let (a, _) ← convertExpr fuel (wrap32 (-absolute w)) t.children
        return (← Expr.memory (if w != 0 then absolute w else unknownWidth) a none 0, rest)
      | .cast => do
        let (n, ts) ← nextNumber t.children
        let (a, _) ← convertExpr fuel n ts
        return (a, rest)
      | .atSign => do
        let (a, ts) ← convertExpr fuel 0 t.children
        let (b, ts) ← convertExpr fuel 0 ts
        let (c, _) ← convertExpr fuel 0 ts
        return (.bits a b c, rest)
      | .quest => do
        let (c, ts) ← convertExpr fuel w t.children
        let (a, ts) ← convertExpr fuel w ts
        let (b, _) ← convertExpr fuel w ts
        return (Expr.conditional c a b, rest)
      | .builtin => do
        let (n, ts) ← nextTree .name t.children
        return (← builtin (String.ofList n.text) (← convertArguments fuel w 5 ts), rest)
      | _ => throw (meaningless (t :: rest))

def convertArguments : Nat → Int → Nat → List Tree → Conversion (List Expr)
  | 0, _, _, _ => throw .tooDeep
  | _, _, _, [] => return []
  | fuel + 1, w, room, t :: rest =>
    if isExpression t.kind then do
      let (a, _) ← convertExpr fuel w [t]
      match room with
      | 0 => throw .outsideArray
      | room + 1 => return a :: (← convertArguments fuel w room rest)
    else return []

end

def assignedWidth (text : Chars) : Faulty Int :=
  int32 (match (text.drop 1).dropLast with
    | 'f' :: ds => ds
    | ds => ds)

def addressBits (constants : List (Chars × Int64)) : Faulty Int :=
  match constants.lookup "ADDRESSBITS".toList with
  | some v => .ok (Word.low32 v)
  | none => .error .absent

def convertThree (fuel : Nat) (w w' w'' : Int) (ts : List Tree) : Conversion (Expr × Expr × Expr) := do
  let (a, ts) ← convertExpr fuel w ts
  let (b, ts) ← convertExpr fuel w' ts
  let (c, _) ← convertExpr fuel w'' ts
  return (a, b, c)

mutual

def convert (constants : List (Chars × Int64)) : Nat → Tree → Conversion (List Stmt)
  | 0, _ => throw .tooDeep
  | fuel + 1, t =>
    match t.kind with
    | .transfers => convertAll constants fuel t.children
    | .assignType => do
      let w ← assignedWidth t.text
      let (x, ts) ← convertExpr fuel w t.children
      let (e, _) ← convertExpr fuel (-w) ts
      if !x.isPlace then throw .wrongKind
      return [.ofEffect (.template w x e)]
    | .memset => do
      let w ← addressBits constants
      let (a, b, c) ← convertThree fuel w unknownWidth w t.children
      return [.ofEffect (.memset a b c)]
    | .memcpy => do
      let w ← addressBits constants
      let (a, b, c) ← convertThree fuel w w w t.children
      return [.ofEffect (.memcpy a b c)]
    | _ => return [.ofEffect (if t.text == "halt".toList then .halt else .skip)]

def convertAll (constants : List (Chars × Int64)) : Nat → List Tree → Conversion (List Stmt)
  | 0, _ => throw .tooDeep
  | _, [] => return []
  | fuel + 1, t :: ts => do
    let s ← convert constants fuel t
    return s ++ (← convertAll constants fuel ts)

end

end FlowRecovery.Spec
