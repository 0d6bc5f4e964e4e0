import Std.Data.HashMap
import Std.Data.TreeMap

/-!
# Sets that remember the order of insertion

A `FifoSet` is a set whose elements stay in the order in which they came, so that it serves as a
worklist, too: `pop?` takes the oldest element. Few elements are held in a list. A set that outgrows
the list is moved to a store that numbers its elements and finds them by their hash; `toList` does
not see the move.
-/

namespace FlowRecovery

def smallCapacity : Int := 15

def largeCapacity : Int := 100

/-- What holds the elements of a set. -/
inductive FifoStore (α : Type) [BEq α] [Hashable α] where
  | listed (elements : List α)
  /-- The elements by their number, the numbers of the elements, and the number of the next one. -/
  | numbered (elements : Std.TreeMap Nat α) (number : Std.HashMap α Nat) (next : Nat)

namespace FifoStore

variable {α : Type} [BEq α] [Hashable α]

instance : Inhabited (FifoStore α) := ⟨.listed []⟩

def toList : FifoStore α → List α
  | listed as => as
  | numbered as _ _ => as.toList.map Prod.snd

def size : FifoStore α → Nat
  | listed as => as.length
  | numbered as _ _ => as.size

def contains : FifoStore α → α → Bool
  | listed as, a => as.any (· == a)
  | numbered _ n _, a => n.contains a

def push : FifoStore α → α → FifoStore α
  | listed as, a => listed (as ++ [a])
  | numbered as n next, a => numbered (as.insert next a) (n.insert a next) (next + 1)

def erase : FifoStore α → α → FifoStore α
  | listed as, a => listed (as.eraseP (· == a))
  | numbered as n next, a =>
    match n[a]? with
    | none => numbered as n next
    | some i => numbered (as.erase i) (n.erase a) next

def clear : FifoStore α → FifoStore α
  | listed _ => listed []
  | numbered _ _ _ => numbered {} {} 0

def ofList (as : List α) : FifoStore α := as.foldl push (numbered {} {} 0)

end FifoStore

/-- A set that remembers the order of insertion. -/
structure FifoSet (α : Type) [BEq α] [Hashable α] where
  capacity : Int := smallCapacity
  store : FifoStore α := .listed []

namespace FifoSet

variable {α : Type} [BEq α] [Hashable α]

instance : Inhabited (FifoSet α) := ⟨{}⟩

def withCapacity (n : Int) : FifoSet α :=
  { capacity := n, store := if n ≤ smallCapacity then .listed [] else .numbered {} {} 0 }

def toList (s : FifoSet α) : List α := s.store.toList

def size (s : FifoSet α) : Nat := s.store.size

def contains (s : FifoSet α) (a : α) : Bool := s.store.contains a

variable (s : FifoSet α)

def grown : FifoSet α :=
  if (s.size : Int) - 1 = smallCapacity ∧ s.capacity ≤ smallCapacity then
    { capacity := largeCapacity, store := .ofList s.toList }
  else s

/-- Adds an element at the end, and tells whether it was new. -/
def add (a : α) : FifoSet α × Bool :=
  if s.contains a then (s, false)
  else
    let s := s.grown
    ({ s with store := s.store.push a }, true)

/-- Takes an element out, and tells whether it was there. -/
def remove (s : FifoSet α) (a : α) : FifoSet α × Bool :=
  ({ s with store := s.store.erase a }, s.contains a)

def insert (a : α) : FifoSet α := (s.add a).1

def erase (s : FifoSet α) (a : α) : FifoSet α := (s.remove a).1

def clear (s : FifoSet α) : FifoSet α := { s with store := s.store.clear }

def pop? : Option (α × FifoSet α) := s.toList.head?.map (fun a => (a, s.erase a))

def insertAll (as : List α) : FifoSet α := as.foldl insert s

def ofList (as : List α) : FifoSet α := (withCapacity as.length).insertAll as

def filter (s : FifoSet α) (p : α → Bool) : FifoSet α :=
  (s.toList.filter (fun a => !p a)).foldl erase s

def union (s t : FifoSet α) : FifoSet α := (ofList s.toList).insertAll t.toList

def inter (s t : FifoSet α) : FifoSet α := (ofList s.toList).filter t.contains

def equals (s t : FifoSet α) : Bool := s.size == t.size && t.toList.all s.contains

end FifoSet

end FlowRecovery
