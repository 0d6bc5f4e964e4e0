import FlowRecovery.Fault
import FlowRecovery.Word

/-!
# Values of queries

Programs that use this library from outside send queries and get answers made of `Value`s: numbers,
texts, lists and records. A fault may stand for the answer of a single step, so that the steps after
it still have answers. Where an order of answers is arbitrary, they are sorted by their compact text
(`Value.sorted`), which makes answers comparable.
-/

namespace FlowRecovery.Query

/-- A value in a query or an answer. -/
inductive Value where
  | null
  | bool (b : Bool)
  | int (n : Int)
  | text (s : String)
  | list (vs : List Value)
  | record (fields : List (String × Value))
  | fault (f : Fault)
  | failed (f : Fault) (fields : List (String × Value))
  | trace (f : Fault)
  deriving Inhabited

variable (vs : List Value)

namespace Value

instance : Coe String Value := ⟨.text⟩
instance : Coe Bool Value := ⟨.bool⟩
instance : Coe Int Value := ⟨.int⟩
instance : Coe Int64 Value := ⟨fun v => .int v.toInt⟩

def nat (n : Nat) : Value := .int n

def texts (ss : List String) : Value := .list (ss.map .text)

def optional {α : Type} (f : α → Value) : Option α → Value
  | none => .null
  | some a => f a

/-! ### Compact text -/

def units (s : String) : List Nat :=
  s.toList.flatMap (fun c =>
    let n := c.toNat
    if n < 0x10000 then [n] else [0xD800 + (n - 0x10000) / 0x400, 0xDC00 + (n - 0x10000) % 0x400])

def quotedUnit (n : Nat) : String :=
  if n == 34 then "\\\""
  else if n == 92 then "\\\\"
  else if n == 8 then "\\b"
  else if n == 12 then "\\f"
  else if n == 10 then "\\n"
  else if n == 13 then "\\r"
  else if n == 9 then "\\t"
  else if 32 ≤ n && n < 127 then String.singleton (Char.ofNat n)
  else "\\u" ++ Text.padLeft 4 '0' (Text.hex n)

def quoted (s : String) : String := "\"" ++ String.join ((units s).map quotedUnit) ++ "\""

def unitsLe : List Nat → List Nat → Bool
  | [], _ => true
  | _ :: _, [] => false
  | a :: as, b :: bs => a < b || (a == b && unitsLe as bs)

def sortTexts (ss : List String) : List String :=
  ((ss.map (fun s => (units s, s))).mergeSort (fun a b => unitsLe a.1 b.1)).map Prod.snd

mutual

def compact : Value → String
  | .null => "null"
  | .bool b => if b then "true" else "false"
  | .int n => toString n
  | .text s => quoted s
  | .list vs => "[" ++ ",".intercalate (compactAll vs) ++ "]"
  | .record fs => "\x7b" ++ ",".intercalate (sortTexts (compactFields fs)) ++ "\x7d"
  | .fault _ | .trace _ => "null"
  | .failed _ fs => "\x7b" ++ ",".intercalate (sortTexts (compactFields fs)) ++ "\x7d"

def compactAll : List Value → List String
  | [] => []
  | v :: vs => compact v :: compactAll vs

def compactFields : List (String × Value) → List String
  | [] => []
  | (n, v) :: fs => (quoted n ++ ":" ++ compact v) :: compactFields fs

end

def sortValues : List Value :=
  ((vs.map (fun v => (units v.compact, v))).mergeSort (fun a b => unitsLe a.1 b.1)).map Prod.snd

def sorted : Value := .list (sortValues vs)

def sortedTexts (ss : List String) : Value := .texts (sortTexts ss)

end Value

/-! ### Reading queries -/

/-- Why a query has no answer: it is not a query, or what it asks for fails. -/
inductive Refusal where
  | malformed (message : String)
  | fault (f : Fault)

abbrev Answer := Except Refusal

instance : MonadLift Faulty Answer where
  monadLift
    | .ok a => .ok a
    | .error f => .error (.fault f)

def malformed {α : Type} (m : String) : Answer α := .error (.malformed m)

def refuse {α : Type} (f : Fault) : Answer α := .error (.fault f)

def settle (r : Answer Value) : Answer Value :=
  match r with
  | .error (.fault f) => .ok (.fault f)
  | r => r

namespace Value

variable (v : Value) (name : String)

def field? : Option Value :=
  match v with
  | .record fs =>
    match fs.lookup name with
    | some .null => none
    | r => r
  | _ => none

def hasField : Bool :=
  match v with
  | .record fs => (fs.lookup name).isSome
  | _ => false

def elements : Value → Answer (List Value)
  | .list vs => .ok vs
  | _ => malformed "expected array"

def listField : Answer (List Value) :=
  match v.field? name with
  | some l => l.elements
  | none => .ok []

def toInt : Value → Answer Int
  | .int n => .ok n
  | _ => malformed "expected number"

def toInt32 : Answer Int := do return wrap32 (← v.toInt)

def toInt64 : Answer Int64 := do return Int64.ofInt (← v.toInt)

def toText : Value → Answer String
  | .text s => .ok s
  | _ => malformed "expected string"

def toBool : Value → Answer Bool
  | .bool b => .ok b
  | _ => malformed "expected boolean"

def boolField : Answer Bool :=
  match v.field? name with
  | some b => b.toBool
  | none => .ok false

def textField (missing : String) : Answer String :=
  match v.field? name with
  | some s => s.toText
  | none => .ok missing

def intField (missing : Int) : Answer Int :=
  match v.field? name with
  | some n => n.toInt
  | none => .ok missing

def key : Value → String
  | .text s => s
  | v => v.compact

end Value

def element (vs : List Value) (n : Nat) : Answer Value :=
  match vs[n]? with
  | some v => .ok v
  | none => malformed "missing element"

def textAt (n : Nat) : Answer String := do (← element vs n).toText

def intAt (n : Nat) : Answer Int := do (← element vs n).toInt32

def longAt (n : Nat) : Answer Int64 := do (← element vs n).toInt64

def listAt (n : Nat) : Answer (List Value) := do (← element vs n).elements

def elementOrNull (n : Nat) : Value := vs[n]?.getD .null

def runSteps {σ : Type} (steps : List Value) (init : σ) (step : σ → Value → Answer (Value × σ)) :
    Answer (List Value × σ) := do
  let (rs, s) ← steps.foldlM (fun (rs, s) v => do
    let (r, s) ← step s v
    return (r :: rs, s)) (([] : List Value), init)
  return (rs.reverse, s)

abbrev Slots (α : Type) := List (String × α)

def Slots.put {α : Type} (s : Slots α) (name : String) (a : α) : Slots α :=
  (name, a) :: s.filter (fun p => p.1 != name)

end FlowRecovery.Query
