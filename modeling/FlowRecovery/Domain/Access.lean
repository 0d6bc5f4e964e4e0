import FlowRecovery.Domain.Interval
import FlowRecovery.Domain.KSet
import FlowRecovery.Domain.Memory

/-!
# Values as addresses

Values of some domains can be computed with and used as addresses. `AddressValue` collects what is
needed for that: the arithmetic of the domain, and what memory holds at the addresses that a value
stands for.
-/

namespace FlowRecovery

/-- A domain whose values can be computed with and point into memory. -/
class AddressValue (A : Type) extends AbstractValue A where
  plus : A → A → Faulty A
  neg : A → Faulty A
  times : A → A → Faulty A
  bits : Int → Int → A → Faulty A
  signExtend : Int → Int → A → Faulty A
  zeroFill : Int → Int → A → Faulty A
  readStore : Setting A → Memory A → Int → A → Faulty A
  readStoreAll : Setting A → Memory A → Int → A → Faulty (List A)
  writeStore : Setting A → Int → A → A → Update A Unit

/-! ### Based numbers -/

namespace Based

def readStore (s : Setting Based) (m : Memory Based) (width : Int) (a : Based) : Faulty Based := do
  m.read s a.region (← a.number).value width

/-- Stores a value at an address; if that is unknown, memory is forgotten. -/
def writeTo {A : Type} [AbstractValue A] (s : Setting A) (width : Int) (a : Based) (value : A) : Update A Unit := do
  if a.isTop then Memory.setTop s
  else if ← a.isOffsetUnknown then Memory.setRegionTop s a.region
  else Memory.write s a.region (← a.number).value width value

end Based

instance : AddressValue Based where
  plus := Based.plus
  neg := Based.neg
  times := Based.times
  bits := Based.bits
  signExtend := Based.signExtend
  zeroFill := Based.zeroFill
  readStore := Based.readStore
  readStoreAll s m width a := do return [← a.readStore s m width]
  writeStore s width a value := a.writeTo s width value

/-! ### Bounded sets -/

namespace KSet

/-- All values at the addresses of a set; places about which nothing is known do not count. -/
def readStore (s : Setting KSet) (m : Memory KSet) (width : Int) (a : KSet) : Faulty KSet := do
  match a.members with
  | none => throw .absent
  | some as =>
    let (k, members) ← as.foldlM (fun ((k, members) : Int × List Based) e => do
      let found ← m.read s e.region (← e.number).value width
      match found.members with
      | none | some [] => return (k, members)
      | some bs => return (max k found.bound, AbstractValue.insertAll members bs)) (0, [])
    return ⟨k, some members⟩

def readStoreAll (s : Setting KSet) (m : Memory KSet) (width : Int) (a : KSet) : Faulty (List KSet) := do
  match a.members with
  | none => return [top]
  | some as => as.foldlM (fun found e => do
      return AbstractValue.insert found (← m.read s e.region (← e.number).value width)) []

/-- Stores a value at the addresses of a set. With several addresses, each keeps the values that it
had. -/
def writeStore (s : Setting KSet) (width : Int) (a value : KSet) : Update KSet Unit := do
  match a.members with
  | none => Memory.setTop s
  | some [e] => e.writeTo s width value
  | some as => as.forM (fun e => do
      if e.isTop then Memory.setTop s
      else if ← e.isOffsetUnknown then Memory.setRegionTop s e.region
      else Memory.weakWrite s e.region (← e.number).value width value)

end KSet

instance : AddressValue KSet where
  plus := KSet.plus
  neg := KSet.neg
  times := KSet.times
  bits := KSet.bits
  signExtend := KSet.signExtend
  zeroFill := KSet.zeroFill
  readStore := KSet.readStore
  readStoreAll := KSet.readStoreAll
  writeStore := KSet.writeStore

/-! ### Intervals -/

namespace Interval

variable (s : Setting Interval)

def readStore (m : Memory Interval) (width : Int) (a : Interval) : Faulty Interval := do
  if ← a.isTop then return ← top width
  let first ← m.read s a.region a.left width
  if a.stride > 0 then go (a.right - a.left).toUInt64.toNat first (a.left + a.stride) else return first
where
  go : Nat → Interval → Int64 → Faulty Interval
    | 0, found, _ => .ok found
    | n + 1, found, offset => do
      if offset ≤ a.right then
        if ← found.isTop then return found
        go n (← found.join (← m.read s a.region offset width)) (offset + a.stride)
      else return found

def readStoreAll (m : Memory Interval) (width : Int) (a : Interval) :
    Faulty (List Interval) := do
  if (← a.isTop) || a.size > Int64.ofNat listLimit then return [← top width]
  (a.offsets (listLimit + 1)).foldlM (fun found o => do
    return AbstractValue.insert found (← m.read s a.region o width)) []

def writeStore (width : Int) (a value : Interval) : Update Interval Unit := do
  if !s.isSummary a.region && a.size == 1 then Memory.write s a.region a.left width value
  else if a.region = .top ∨ a.size > Int64.ofNat listLimit then Memory.setRegionTop s a.region
  else (a.offsets (listLimit + 1)).forM (fun o => Memory.weakWrite s a.region o width value)

end Interval

instance : AddressValue Interval where
  plus := Interval.plus
  neg := Interval.neg
  times := Interval.times
  bits := Interval.bits
  signExtend := Interval.signExtend
  zeroFill := Interval.zeroFill
  readStore := Interval.readStore
  readStoreAll := Interval.readStoreAll
  writeStore := Interval.writeStore

end FlowRecovery
