import FlowRecovery.Domain.Number
import FlowRecovery.Domain.Region

/-!
# Abstract values

An abstract value stands for a set of numbers. `AbstractValue` collects what every domain of
abstract values offers, and `Factory` how values of a domain are made from numbers. Some domains
know only certain bit widths, so even simple questions can fail.
-/

namespace FlowRecovery

/-- A domain of abstract values. -/
class AbstractValue (A : Type) where
  /-- Equality as the domain sees it; the first value is the one that is asked. -/
  equals : A → A → Bool
  width? : A → Option Int
  isTop : A → Faulty Bool
  isBot : A → Bool
  join : A → A → Faulty A
  lessOrEqual : A → A → Faulty Bool
  concretize : A → Faulty Numbers
  isUnique : A → Faulty Bool
  text : A → Faulty String

/-- How abstract values are made. -/
structure Factory (A : Type) where
  single : Num → Faulty A
  several : List Num → Faulty A
  top : Int → Faulty A
  tt : A
  ff : A

namespace AbstractValue

variable {A : Type} [AbstractValue A]

def joinAll : List A → Faulty A
  | [] => .error .noElement
  | a :: as => as.foldlM join a

/-- The list with one more value at its end, unless the new value equals one of the list. -/
def insert (as : List A) (a : A) : List A := if as.any (equals a) then as else as ++ [a]

def insertAll (as bs : List A) : List A := bs.foldl insert as

def containsAll (as bs : List A) : Bool := bs.all (fun b => as.any (equals b))

end AbstractValue

end FlowRecovery
