import FlowRecovery.Domain.Constant

/-!
# Based numbers

A based number is a constant offset into a memory region; in global memory it is the number itself.
Arithmetic keeps the region where that makes sense, and needs offsets that are known.
-/

namespace FlowRecovery

/-- An offset into a memory region. -/
structure Based where
  region : Region
  offset : Constant
  deriving DecidableEq, Inhabited

namespace Based

def top (width : Int) : Faulty Based := do return ⟨.top, ← Constant.top width⟩

def ofNum (n : Num) : Faulty Based := do return ⟨.global, ← Constant.ofNum n⟩

def width (a : Based) : Int := a.offset.width

def isTop (a : Based) : Bool := a.region == .top && a.offset.isTop

def isUnbased (a : Based) : Bool := a.region == .global

def isOffsetUnknown (a : Based) : Faulty Bool :=
  if a.isTop then .error (.violated (some "TOP BasedNumberElement has no number!")) else .ok a.offset.isTop

def number (a : Based) : Faulty Num := a.offset.number

def equals (a b : Based) : Bool := a.region == b.region && a.offset.equals b.offset

/-- The numbers that the value stands for. A pointer stands for every number. -/
def concretize (a : Based) : Numbers :=
  if !a.isUnbased && !a.isTop then (Constant.unknown a.width).concretize else a.offset.concretize

def isUnique (a : Based) : Bool := !a.isTop && a.isUnbased && !a.offset.isTop

def text (a : Based) : String :=
  if a.isTop then "TOP<" ++ toString a.width ++ ">"
  else if a.region == .global then "$" ++ a.offset.text
  else a.region.text ++ "+" ++ a.offset.text

/-- The least value above both; values of different widths have none. -/
def join (a b : Based) : Faulty Based :=
  if b.width != a.width then .error (.violated (some ("Different bitwidths: " ++ b.text ++ " with " ++
    toString b.width ++ " and " ++ a.text ++ " with " ++ toString a.width)))
  else if b.isTop then .ok b
  else if a.isTop then .ok a
  else if a.equals b then .ok a
  else if a.region != b.region then top a.width
  else .ok ⟨a.region, a.offset.join b.offset⟩

def lessOrEqual (a b : Based) : Bool :=
  b.isTop || a.equals b || (!a.isTop && a.region == b.region && a.offset.lessOrEqual b.offset)

def onNumber (a : Based) (f : Num → Num) : Faulty Based :=
  if a.region != .global then top a.width else do return ⟨a.region, ← Constant.ofNum (f (← a.number))⟩

def bits (first last : Int) (a : Based) : Faulty Based := a.onNumber (Num.bits first last)

def neg (a : Based) : Faulty Based := a.onNumber Num.neg

def signExtend (first last : Int) (a : Based) : Faulty Based := a.onNumber (Num.signExtend first last)

def zeroFill (first last : Int) (a : Based) : Faulty Based := a.onNumber (Num.zeroFill first last)

/-- The product of two numbers; with pointers it is unknown. -/
def times (a b : Based) : Faulty Based :=
  if b.region != .global || a.region != .global then top (max a.width b.width)
  else do return ⟨a.region, ← Constant.ofNum ((← a.number).times (← b.number))⟩

/-- The sum: a pointer and a number give a pointer, two pointers something unknown. -/
def plus (a b : Based) : Faulty Based :=
  let region := a.region.join b.region
  if region == .top then top (max a.width b.width)
  else do return ⟨region, ← Constant.ofNum ((← a.number).plus (← b.number))⟩

def tt : Based := ⟨.global, .known .tt⟩

def ff : Based := ⟨.global, .known .ff⟩

end Based

instance : AbstractValue Based where
  equals := Based.equals
  width? a := some a.width
  isTop a := .ok a.isTop
  isBot _ := false
  join := Based.join
  lessOrEqual a b := .ok (a.lessOrEqual b)
  concretize a := .ok a.concretize
  isUnique a := .ok a.isUnique
  text a := .ok a.text

namespace Based

def factory : Factory Based where
  single := ofNum
  several ns := do AbstractValue.joinAll (← ns.mapM ofNum)
  top := top
  tt := tt
  ff := ff

end Based

end FlowRecovery
