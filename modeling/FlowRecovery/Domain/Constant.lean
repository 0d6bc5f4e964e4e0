import FlowRecovery.Domain.Value

/-!
# Constants

The flat domain of numbers: a known number of a bit width, or any number of that width. Widths reach
from 1 to 128. A known number, when asked, takes the unknown value for equal if it is one less than
its own width; the unknown value itself only equals itself.
-/

namespace FlowRecovery

/-- A known number, or any number of a width. -/
inductive Constant where
  | known (n : Num)
  | unknown (width : Int)
  deriving DecidableEq, Inhabited

namespace Constant

def top (width : Int) : Faulty Constant :=
  if 1 ≤ width ∧ width ≤ 128 then .ok (unknown width) else .error .outsideArray

def ofNum (n : Num) : Faulty Constant :=
  if n.width ≤ 0 then .error (.violated (some
    ("Cannot create number element for " ++ n.text ++ " with unknown bitwidth!")))
  else if n.width > 128 then .error .outsideArray
  else .ok (known n)

def width : Constant → Int
  | known n => n.width
  | unknown w => w

def isTop : Constant → Bool
  | known _ => false
  | unknown _ => true

/-- The number that represents the value: an unknown value is represented by its width less one. -/
def representative : Constant → Num
  | known n => n
  | unknown w => .of (Int64.ofInt (w - 1)) w

def number : Constant → Faulty Num
  | known n => .ok n
  | unknown _ => .error (.violated (some "Attempting to get value of a TOP NumberElement!"))

/-- Equality: a known number is compared with the representative of the other value. -/
def equals : Constant → Constant → Bool
  | unknown w, unknown w' => w == w'
  | unknown _, known _ => false
  | known n, b => b.representative == n

def concretize : Constant → Numbers
  | known n => .listed [n]
  | unknown w => if w == 1 then .truthValues else .all

def join (a b : Constant) : Constant :=
  if b.width > a.width then unknown b.width
  else if a.width > b.width then unknown a.width
  else match a, b with
    | known n, known m => if n = m then a else unknown a.width
    | _, _ => unknown a.width

def lessOrEqual (a b : Constant) : Bool := b.isTop || a.equals b

def text : Constant → String
  | known n => n.text
  | unknown w => "TOP<" ++ toString w ++ ">"

def factory : Factory Constant where
  single := ofNum
  several ns := do
    match ← ns.mapM ofNum with
    | [] => throw .noElement
    | a :: as => return as.foldl join a
  top := top
  tt := known .tt
  ff := known .ff

end Constant

instance : AbstractValue Constant where
  equals := Constant.equals
  width? a := some a.width
  isTop a := .ok a.isTop
  isBot _ := false
  join a b := .ok (a.join b)
  lessOrEqual a b := .ok (a.lessOrEqual b)
  concretize a := .ok a.concretize
  isUnique a := .ok (!a.isTop)
  text a := .ok a.text

end FlowRecovery
