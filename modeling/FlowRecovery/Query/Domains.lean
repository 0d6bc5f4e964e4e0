import FlowRecovery.Domain.Interval
import FlowRecovery.Domain.KSet
import FlowRecovery.Query.Expressions

/-!
# Queries about abstract values

An abstract value is written as a list that starts with the tag of its domain. A query makes values
step by step; later steps refer to them by the number of the step that made them.
-/

namespace FlowRecovery.Query

/-! ### Regions -/

def summaryMark : String := "summary:"

def decodeRegion (v : Value) : Answer Region := do
  match ← v.toText with
  | "global" => return .global
  | "stack" => return .stack
  | "top" => return .top
  | s =>
    return .ofName (if s.startsWith summaryMark then String.ofList (s.toList.drop summaryMark.length) else s)

def regionAt (vs : List Value) (n : Nat) : Answer Region := do decodeRegion (← element vs n)

def encodeRegion : Region → Value
  | .global => "global"
  | .stack => "stack"
  | .top => "top"
  | r => r.text

mutual

def markedRegions : Value → List Region
  | .text s =>
    if s.startsWith summaryMark then [.ofName (String.ofList (s.toList.drop summaryMark.length))] else []
  | .list vs => markedRegionsIn vs
  | _ => []

def markedRegionsIn : List Value → List Region
  | [] => []
  | v :: vs => markedRegions v ++ markedRegionsIn vs

end

/-! ### Abstract values -/

/-- An abstract value of one of the domains. -/
inductive Abstract where
  | num (n : Num)
  | constant (c : Constant)
  | based (b : Based)
  | kset (s : KSet)
  | interval (i : Interval)

def encodeNum (n : Num) : Value := .list ["num", n.value, n.width]

def decodeNum (v : Value) : Answer Num := do Num.ofExpr (← decodeExpr v)

def encodeNumbers : Numbers → Value
  | .all => "ALL"
  | .listed ns => .sorted (ns.map encodeNum)

def encodeKnown : Constant → Value
  | .known n => n.value
  | .unknown _ => .null

def encodeConstant (c : Constant) : Value := .list ["n", encodeKnown c, c.width]

def encodeBased (b : Based) : Value := .list ["bn", encodeRegion b.region, encodeKnown b.offset, b.width]

def encodeKSet (s : KSet) : Value :=
  .list ["ks", s.bound, .optional (fun as => .sorted (as.map (fun b =>
    .list [encodeRegion b.region, encodeKnown b.offset, b.width]))) s.members]

def encodeInterval (i : Interval) : Value :=
  .list ["iv", encodeRegion i.region, i.left, i.right, i.stride, i.width]

def encodeAbstract : Abstract → Value
  | .num n => encodeNum n
  | .constant c => encodeConstant c
  | .based b => encodeBased b
  | .kset s => encodeKSet s
  | .interval i => encodeInterval i

def decodeConstant (value width : Value) : Answer Constant := do
  let w ← width.toInt32
  match value with
  | .null => Constant.top w
  | v => Constant.ofNum (.of (← v.toInt64) w)

def decodeBased (vs : List Value) : Answer Based := do
  let region ← regionAt vs 0
  return ⟨region, ← decodeConstant (elementOrNull vs 1) (← element vs 2)⟩

def decodeAbstract (v : Value) : Answer Abstract := do
  let vs ← v.elements
  let int := intAt vs
  let long := longAt vs
  let nums (n : Nat) : Answer (List Num) := do (← listAt vs n).mapM decodeNum
  match ← textAt vs 0 with
  | "num" => return .num (← decodeNum v)
  | "iv" =>
    let r ← regionAt vs 1
    return .interval (← Interval.make r (← long 2) (← long 3) (← long 4) (← int 5))
  | "ivtop" => return .interval (← Interval.top (← int 1))
  | "ivset" => return .interval (← Interval.factory.several (← nums 1))
  | "n" => return .constant (← decodeConstant (elementOrNull vs 1) (← element vs 2))
  | "nset" => return .constant (← Constant.factory.several (← nums 1))
  | "bn" => return .based (← decodeBased (vs.drop 1))
  | "bntop" => return .based (← Based.top (← int 1))
  | "bnset" => return .based (← Based.factory.several (← nums 1))
  | "ks" =>
    let bound ← int 1
    match elementOrNull vs 2 with
    | .null => return .kset .top
    | members =>
      let as ← (← members.elements).mapM (fun m => do decodeBased (← m.elements))
      return .kset ⟨bound, some (as.foldl AbstractValue.insert [])⟩
  | "kstop" =>
    let _ ← int 1
    return .kset .top
  | "ksset" => return .kset (← (KSet.factory (← int 1)).several (← nums 2))
  | t => malformed ("unknown value " ++ t)

namespace Abstract

def plus : Abstract → Abstract → Faulty Abstract
  | num a, num b => .ok (.num (a.plus b))
  | based a, based b => do return .based (← a.plus b)
  | kset a, kset b => do return .kset (← a.plus b)
  | interval a, interval b => do return .interval (← a.plus b)
  | _, _ => .error .wrongKind

def times : Abstract → Abstract → Faulty Abstract
  | num a, num b => .ok (.num (a.times b))
  | based a, based b => do return .based (← a.times b)
  | kset a, kset b => do return .kset (← a.times b)
  | interval a, interval b => do return .interval (← a.times b)
  | _, _ => .error .wrongKind

def join : Abstract → Abstract → Faulty (Option Abstract)
  | num _, _ => .ok none
  | constant a, constant b => .ok (some (.constant (a.join b)))
  | based a, based b => do return some (.based (← a.join b))
  | kset a, kset b => .ok (some (.kset (a.join b)))
  | interval a, interval b => do return some (.interval (← a.join b))
  | _, _ => .error .wrongKind

def equals : Abstract → Abstract → Faulty Bool
  | num a, num b => .ok (a == b)
  | constant a, constant b => .ok (a.equals b)
  | based a, based b => .ok (a.equals b)
  | based _, _ => .error .wrongKind
  | kset a, kset b => .ok (a.equals b)
  | interval a, interval b => .ok (a == b)
  | _, _ => .ok false

def isTop : Abstract → Faulty Bool
  | num _ => .ok false
  | constant a => .ok a.isTop
  | based a => .ok a.isTop
  | kset a => .ok a.isTop
  | interval a => a.isTop

def lessOrEqual : Abstract → Abstract → Faulty Bool
  | num a, b => (num a).equals b
  | constant a, b => do
    if ← b.isTop then return true
    (constant a).equals b
  | based a, b => do
    match b with
    | based b => return a.lessOrEqual b
    | b => if ← b.isTop then return true else throw .wrongKind
  | kset a, kset b => .ok (a.lessOrEqual b)
  | interval a, interval b => a.lessOrEqual b
  | _, _ => .error .wrongKind

def widen : Abstract → Abstract → Faulty Abstract
  | interval a, interval b => do return .interval (← a.widen b)
  | _, _ => .error .wrongKind

def unary (n : Num → Num) (b : Based → Faulty Based) (k : KSet → Faulty KSet)
    (i : Interval → Faulty Interval) : Abstract → Faulty Abstract
  | num a => .ok (.num (n a))
  | constant _ => .error .wrongKind
  | based a => do return .based (← b a)
  | kset a => do return .kset (← k a)
  | interval a => do return .interval (← i a)

def fingerprint : Abstract → List (Region × Int64)
  | kset ⟨_, some as⟩ =>
    (as.map (fun b => (b.region, b.offset.representative.value))).mergeSort (fun a b =>
      a.1.text < b.1.text || (a.1.text == b.1.text && a.2 ≤ b.2))
  | _ => []

def info (a : Abstract) : Answer Value := do
  let record (top bot : Bool) (unique : Bool) (ns : Numbers) (more : List (String × Value)) : Value :=
    .record ([("top", (top : Value)), ("bot", bot), ("unique", unique), ("concrete", encodeNumbers ns)] ++ more)
  match a with
  | num n => return record false false true (.listed [n]) [("width", n.width), ("str", n.text)]
  | constant c => return record c.isTop false (!c.isTop) c.concretize [("width", c.width), ("str", c.text)]
  | based b => return record b.isTop false b.isUnique b.concretize [("width", b.width), ("str", b.text)]
  | kset s => return record s.isTop s.isBot s.isUnique s.concretize []
  | interval i =>
    return record (← i.isTop) false (i.size == 1) i.concretize [("width", i.width), ("str", ← i.text),
      ("size", i.size), ("open", .list [← i.leftOpen, ← i.rightOpen])]

def joinAll : List Abstract → Faulty (Option Abstract)
  | [] => .error .noElement
  | a :: as => as.foldlM (fun acc b =>
      match acc with
      | some a => a.join b
      | none => .error .absent) (some a)

def minimumJoin (a : Abstract) (as : List Abstract) : Faulty Abstract := do
  let best ← as.foldlM (fun (best : Option Abstract) b => do
    match ← a.join b with
    | none => throw .absent
    | some j =>
      if ← j.equals a then return best
      match best with
      | none => return some j
      | some r => if ← j.lessOrEqual r then return some j else return best) none
  match best with
  | some r => return r
  | none => throw (.violated none)

end Abstract

/-! ### Steps -/

def domainStep (made : List (Option Abstract)) (step : Value) : Answer (Value × Option Abstract) := do
  let vs ← step.elements
  let ref (v : Value) : Answer Abstract := do
    let n ← v.toInt32
    match (if n < 0 then none else made[n.toNat]?.join) with
    | some a => return a
    | none => malformed ("no value " ++ toString n)
  let arg (n : Nat) : Answer Abstract := do ref (← element vs n)
  let int := intAt vs
  let make (a : Abstract) : Value × Option Abstract := (encodeAbstract a, some a)
  let show_ (v : Value) : Value × Option Abstract := (v, none)
  match ← textAt vs 0 with
  | "lit" => return make (← decodeAbstract (← element vs 1))
  | "plus" => return make (← (← arg 1).plus (← arg 2))
  | "mul" => return make (← (← arg 1).times (← arg 2))
  | "join" =>
    match ← (← arg 1).join (← arg 2) with
    | some a => return make a
    | none => return show_ .null
  | "widen" => return make (← (← arg 1).widen (← arg 2))
  | "neg" => return make (← (← arg 1).unary Num.neg Based.neg KSet.neg Interval.neg)
  | "bits" =>
    let (f, l) := (← int 2, ← int 3)
    return make (← (← arg 1).unary (Num.bits f l) (Based.bits f l) (KSet.bits f l) (Interval.bits f l))
  | "sext" =>
    let (f, l) := (← int 2, ← int 3)
    return make (← (← arg 1).unary (Num.signExtend f l) (Based.signExtend f l) (KSet.signExtend f l)
      (Interval.signExtend f l))
  | "zfill" =>
    let (f, l) := (← int 2, ← int 3)
    return make (← (← arg 1).unary (Num.zeroFill f l) (Based.zeroFill f l) (KSet.zeroFill f l)
      (Interval.zeroFill f l))
  | "joinall" =>
    let as ← (← listAt vs 1).mapM ref
    match ← Abstract.joinAll as with
    | some a => return make a
    | none => return show_ .null
  | "minjoin" =>
    let as ← (← listAt vs 1).mapM ref
    return make (← (← arg 2).minimumJoin as)
  | "leq" => return show_ (← (← arg 1).lessOrEqual (← arg 2))
  | "eq" =>
    let a ← arg 1
    let b ← arg 2
    let e ← a.equals b
    return show_ (.list [e, (!e || a.fingerprint == b.fingerprint : Bool)])
  | "iterate" =>
    match ← arg 1 with
    | .interval i => return show_ (.list ((i.offsets 200).map (fun v => Value.int v.toInt)))
    | _ => refuse .wrongKind
  | "info" => return show_ (← (← arg 1).info)
  | t => malformed ("unknown step " ++ t)

def abstractValues (query : Value) : Answer Value := do
  let (rs, _) ← runSteps (← query.listField "steps") ([] : List (Option Abstract)) (fun made step =>
    match domainStep made step with
    | .error (.fault f) => .ok (.fault f, made ++ [none])
    | .error e => .error e
    | .ok (v, a) => .ok (v, made ++ [a]))
  return .list rs

end FlowRecovery.Query
