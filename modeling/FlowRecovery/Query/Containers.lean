import FlowRecovery.Analysis.Edge
import FlowRecovery.Container.FifoSet
import FlowRecovery.DataType
import FlowRecovery.Domain.State
import FlowRecovery.Query.Domains
import FlowRecovery.Query.Statements

/-!
# Queries about containers

Maps with one and with two keys, and small values (tuples, addresses, labels, regions) whose order,
text and digest other answers rest on.
-/

namespace FlowRecovery.Query

namespace Value

instance : BEq Value := ⟨fun a b => a.compact == b.compact⟩

instance : Hashable Value := ⟨fun a => hash a.compact⟩

def textDigest (s : String) : UInt32 := (units s).foldl (fun d n => 31 * d + n.toUInt32) 0

def numberDigest (n : Int) : UInt32 :=
  let v := (Int64.ofInt n).toUInt64
  (v ^^^ (v >>> 32)).toUInt32

mutual

def digest : Value → UInt32
  | .null => 0
  | .bool b => if b then 1231 else 1237
  | .int n => numberDigest n
  | .text s => textDigest s
  | .list vs => listDigest 1 vs
  | .record fs | .failed _ fs => fieldsDigest fs
  | .fault _ | .trace _ => 0

def listDigest (d : UInt32) : List Value → UInt32
  | [] => d
  | v :: vs => listDigest (31 * d + digest v) vs

def fieldsDigest : List (String × Value) → UInt32
  | [] => 0
  | (n, v) :: fs => (textDigest n ^^^ digest v) + fieldsDigest fs

end

mutual

def display : Value → String
  | .null => "null"
  | .bool b => if b then "true" else "false"
  | .int n => toString n
  | .text s => s
  | .list vs => "[" ++ ", ".intercalate (displayAll vs) ++ "]"
  | .record fs | .failed _ fs => "\x7b" ++ ", ".intercalate (displayFields fs) ++ "\x7d"
  | .fault _ | .trace _ => "null"

def displayAll : List Value → List String
  | [] => []
  | v :: vs => display v :: displayAll vs

def displayFields : List (String × Value) → List String
  | [] => []
  | (n, v) :: fs => (n ++ "=" ++ display v) :: displayFields fs

end

end Value

def encodeOrder {α : Type} (lt : α → α → Bool) (a b : α) : Value :=
  .int (if lt a b then -1 else if lt b a then 1 else 0)

/-! ### Maps -/

/-- A key of an ordered map. -/
inductive Key where
  | int (n : Int)
  | text (s : String)
  | bool (b : Bool)

namespace Key

def compare : Key → Key → Ordering
  | int a, int b => Ord.compare a b
  | bool a, bool b => Ord.compare a b
  | text a, text b => Ord.compare (Value.units a) (Value.units b)
  | int _, _ => .lt
  | _, int _ => .gt
  | bool _, text _ => .lt
  | text _, bool _ => .gt

instance : Ord Key := ⟨compare⟩

def ofValue : Value → Faulty Key
  | .int n => .ok (int n)
  | .text s => .ok (text s)
  | .bool b => .ok (bool b)
  | .null => .error .absent
  | _ => .error .wrongKind

def toValue : Key → Value
  | int n => .int n
  | text s => .text s
  | bool b => .bool b

def sameKind : Key → Key → Bool
  | int _, int _ | text _, text _ | bool _, bool _ => true
  | _, _ => false

end Key

abbrev ValueRow := Std.TreeMap Key Value

def keyFor (r : ValueRow) (v : Value) : Faulty Key := do
  let k ← Key.ofValue v
  match r.minKey? with
  | some k' => if k.sameKind k' then return k else .error .wrongKind
  | none => return k

def rowGet (r : ValueRow) (k : Key) : Value := r[k]?.getD .null

abbrev ValuePool := MapPool Value Key Value

def encodePairs (r : Value) (m : PairMap Value Key Value) : Value :=
  .record [("r", r), ("entries", .sorted (m.toList.map (fun (k, l, v) => Value.list [k, l.toValue, v]))),
    ("left", .sorted (m.rows.map Prod.fst)), ("size", .nat m.size), ("empty", m.isEmpty)]

def poolDigest (p : ValuePool) (name : String) : UInt32 × ValuePool :=
  p.digest Value.digest (fun k => k.toValue.digest) Value.digest name

/-- One step on maps with two keys. Maps that are not lazy have contents of their own at once. -/
def pairStep (lazy : Bool) (p : ValuePool) (step : Value) : Answer (Value × ValuePool) := do
  let vs ← step.elements
  let kind ← textAt vs 0
  let name ← textAt vs 1
  let m := p.get name
  let left := elementOrNull vs 2
  let row := (m.row? left).getD {}
  let value (k : Key) : Value := rowGet row k
  let key (f : Key → Value × ValuePool) (bad : ValuePool) : Value × ValuePool :=
    match keyFor row (elementOrNull vs 3) with
    | .ok k => f k
    | .error e => (.fault e, bad)
  let change (r : Value) (f : PairMap Value Key Value → PairMap Value Key Value) : Value × ValuePool :=
    let p := p.modify name f
    (encodePairs r (p.get name), p)
  let keep (r : Value) : Value × ValuePool := (encodePairs r m, (p.locate name).2)
  let found (f : Key → Value × ValuePool) (missing : Value × ValuePool) : Value × ValuePool :=
    if m.hasRow left then key f p else missing
  match kind with
  | "put" =>
    let bad := p.modify name (fun m => ⟨PairMap.setRow m.rows left row⟩)
    return key (fun k => change (value k) (·.insert left k (elementOrNull vs 4))) bad
  | "get" => return found (fun k => keep (value k)) (keep .null)
  | "haskey" => return found (fun k => keep (row.contains k)) (keep false)
  | "hasleft" => return keep (m.hasRow left)
  | "remove" => return found (fun k => change (value k) (·.erase left k)) (change .null id)
  | "removeleft" => return change .null (·.eraseRow left)
  | "clear" => return change .null (fun _ => {})
  | "sub" =>
    return keep (.optional (fun (r : ValueRow) => .record (r.toList.map (fun (k, v) => (k.toValue.display, v))))
      (m.row? left))
  | "copy" =>
    let target ← left.toText
    let p := p.copy name target
    return (encodePairs .null (p.get name), if lazy then p else (p.unshare target).2)
  | "putall" =>
    let other := p.get (← left.toText)
    return change .null (·.insertAll other)
  | "exclusive" =>
    if lazy then
      let (r, p) := p.unshare name
      return (encodePairs r m, p)
    else malformed "unknown step exclusive"
  | "equal" =>
    let other ← left.toText
    let forget (p : ValuePool) : ValuePool :=
      if lazy then p else { p with contents := p.contents.map (fun s => { s with digest := 0 }) }
    let (d, p) := poolDigest (p.locate other).2 name
    let (e, p) := poolDigest p other
    return (encodePairs (.list [.bool (m.equals (· == ·) (p.get other)), .bool (d == e)]) m, forget p)
  | _ => malformed ("unknown step " ++ kind)

/-! ### Small values -/

abbrev SeenRegions := List (Region × Bool)

def seeRegion (seen : SeenRegions) (v : Value) : Answer (Region × SeenRegions) := do
  let r ← decodeRegion v
  let marked := !(markedRegions v).isEmpty
  if seen.any (fun s => s.1 == r) then
    return (r, seen.map (fun s => if s.1 == r then (r, s.2 || marked) else s))
  else return (r, seen ++ [(r, marked)])

def pairEquals (a b c d : Value) : Faulty Bool := do
  let same (a c : Value) : Faulty Bool :=
    match a, c with
    | .null, .null => .ok true
    | .null, _ => .error .absent
    | a, c => .ok (a == c)
  if ← same a c then same b d else return false

def miscStep (seen : SeenRegions) (step : Value) : Answer (Value × SeenRegions) := do
  let vs ← step.elements
  let at_ (n : Nat) : Answer Value := element vs n
  match ← textAt vs 0 with
  | "cross" =>
    let sets ← (← listAt vs 1).mapM (fun v => do return (FifoSet.ofList (← v.elements)).toList)
    return (.sorted ((crossProduct sets).map .list), seen)
  | "box" =>
    let t ← textAt vs 1
    let line := String.ofList (List.replicate ((Value.units t).length + 4) '*')
    return (line ++ "\n* " ++ t ++ " *\n" ++ line, seen)
  | "tuple" =>
    let a ← listAt vs 1
    let b ← listAt vs 2
    return (.record [("str", (Value.list a).display), ("equal", Value.list a == Value.list b),
      ("hash", Value.listDigest 1 a == Value.listDigest 1 b), ("size", .nat a.length)], seen)
  | "tupleget" =>
    let a ← listAt vs 1
    let i ← intAt vs 2
    return ((if i < 0 then .fault .outsideArray else a[i.toNat]?.getD (.fault .outsideArray)), seen)
  | "pair" =>
    let (a, b, c, d) := (← at_ 1, ← at_ 2, ← at_ 3, ← at_ 4)
    match pairEquals a b c d with
    | .error f => return (.fault f, seen)
    | .ok e =>
      return (.record [("str", "(" ++ a.display ++ "," ++ b.display ++ ")"), ("equal", e),
        ("hash", a.digest + 81 * b.digest == c.digest + 81 * d.digest)], seen)
  | "addr" =>
    let a ← longAt vs 1
    let b ← longAt vs 2
    return (.record [("str", addressText a), ("equal", a == b), ("cmp", encodeOrder (fun x y => decide (x < y)) a b),
      ("num", encodeNum (Num.of a 32)), ("effective", a)], seen)
  | "label" =>
    match ← decodeLabel (← at_ 1), ← decodeLabel (← at_ 2) with
    | some a, some b =>
      return (.record [("str", a.text), ("equal", a == b), ("cmp", encodeOrder Label.lt a b)], seen)
    | _, _ => return (.fault .absent, seen)
  | "type" =>
    let bits ← intAt vs 1
    match DataType.signed? bits, DataType.unsigned? bits with
    | some s, some u => return (.texts [s.name, u.name, s.name, u.name], seen)
    | _, _ => return (.fault (.illegalArgument none), seen)
  | "bitmask" => return (Word.bitMask (← intAt vs 1) (← intAt vs 2), seen)
  | "edgekind" =>
    let kind (v : Value) : Answer EdgeKind := do
      match ← v.toText with
      | "MAY" => return .may
      | "MUST" => return .must
      | _ => refuse (.illegalArgument none)
    let a ← kind (← at_ 1)
    let b ← kind (← at_ 2)
    return (.record [("str", a.name), ("join", (a.join b).name), ("leq", a.lessOrEqual b), ("top", a == .must),
      ("bot", a == .may)], seen)
  | "region" =>
    let (a, seen) ← seeRegion seen (← at_ 1)
    let (b, seen) ← seeRegion seen (← at_ 2)
    let later (a b : Region) : Bool := seen.findIdx (fun s => s.1 == b) < seen.findIdx (fun s => s.1 == a)
    return (.record [("str", a.text), ("top", a == .top), ("bot", a == .global),
      ("summary", seen.any (fun s => s.1 == a && s.2)), ("leq", b == .top || a == .global),
      ("join", encodeRegion (a.join b)), ("cmp", encodeOrder later a b)], seen)
  | kind => malformed ("unknown step " ++ kind)

def standardRegions : SeenRegions := [(.top, false), (.global, false), (.stack, false)]

end FlowRecovery.Query
