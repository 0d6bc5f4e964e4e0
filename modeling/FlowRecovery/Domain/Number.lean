import FlowRecovery.Expr.Evaluation

/-!
# Numbers and sets of numbers

The concrete values behind abstract ones: numbers of a bit width, and sets of them, which are either
listed or hold every number.
-/

namespace FlowRecovery

/-- A number of `width` bits in two's complement. -/
structure Num where
  value : Int64
  width : Int
  deriving DecidableEq, Inhabited

namespace Num

/-- The number with the low bits of `value`; with one bit, every value but zero is *true*. -/
def of (value : Int64) (width : Int) : Num :=
  ⟨if width == 1 then (if value == 0 then 0 else -1) else Word.truncate value width, width⟩

def tt : Num := ⟨-1, 1⟩

def ff : Num := ⟨0, 1⟩

def toExpr (n : Num) : Expr := .num n.value n.width

def ofExpr? : Expr → Option Num
  | .num v w => some ⟨v, w⟩
  | _ => none

def ofExpr (e : Expr) : Faulty Num :=
  match ofExpr? e with
  | some n => .ok n
  | none => .error .wrongKind

def text (n : Num) : String := Expr.numberText n.value n.width

def low32 (n : Num) : Int := Word.low32 n.value

def plus (a b : Num) : Num := of (a.value + b.value) (max a.width b.width)

def times (a b : Num) : Num := of (a.value * b.value) (max a.width b.width)

def neg (a : Num) : Num := of (-a.value) a.width

def bits (first last : Int) (a : Num) : Num :=
  of (Word.shiftRight (Word.bitMask first last &&& a.value) first) (wrap32 (last - first + 1))

/-- The number with copies of its highest bit from `first` to `last`. -/
def signExtend (first last : Int) (a : Num) : Num :=
  let target := max a.width (wrap32 (last + 1))
  if (a.value &&& Word.bitMask (a.width - 1) (a.width - 1)) > 0 then of (a.value ||| Word.bitMask first last) target
  else of a.value target

def zeroFill (first last : Int) (a : Num) : Num :=
  let target := max a.width (wrap32 (last + 1))
  of (a.value &&& (Word.bitMask 0 (first - 1) ||| Word.bitMask (last + 1) (target - 1))) target

end Num

/-- A set of numbers: listed without repetition, or all of them. -/
inductive Numbers where
  | all
  | listed (ns : List Num)
  deriving DecidableEq

namespace Numbers

def Mem (s : Numbers) (n : Num) : Prop :=
  match s with
  | all => True
  | listed ns => n ∈ ns

/-- The list with one more number at its end, unless it is there. -/
def insert (ns : List Num) (n : Num) : List Num := if ns.contains n then ns else ns ++ [n]

def ofList (ns : List Num) : Numbers := listed (ns.foldl insert [])

def truthValues : Numbers := listed [.tt, .ff]

end Numbers

end FlowRecovery
