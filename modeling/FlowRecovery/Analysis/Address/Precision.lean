import FlowRecovery.Container.PairMap
import FlowRecovery.Domain.Based

/-!
# How precisely values are tracked

At each location, every variable and every byte of memory is tracked at one of three levels. The
precision of a location also remembers which values were met there; a place at which more values
were met than its threshold allows loses its offset, or, if these values belong to too many regions,
its value.
-/

namespace FlowRecovery

/-- What is kept of a value. -/
inductive TrackingLevel where
  | nothing | region | full

def TrackingLevel.limit (level : TrackingLevel) (width : Int) (a : Based) : Faulty Based :=
  match level with
  | nothing => Based.top width
  | region => do return ⟨a.region, ← Constant.top width⟩
  | full => .ok a

/-- How precisely values are tracked at a location. -/
structure Precision where
  threshold : Int
  boosted : List (Var × Int) := []
  levels : Std.TreeMap Nat TrackingLevel := {}
  cellLevels : PairMap Region Int64 TrackingLevel := .empty
  seen : Std.TreeMap Nat (Var × List Based) := {}
  seenAt : PairMap Region Int64 (List Based) := .empty

namespace Precision

variable (p : Precision)

def level (v : Var) : TrackingLevel := (p.levels[v.index]?).getD .full

def cellLevel (region : Region) (offset : Int64) : TrackingLevel :=
  (p.cellLevels.find? region offset).getD .full

def thresholdOf (v : Var) : Int := (p.boosted.lookup v).getD p.threshold

/-- The threshold of a place in memory; allocated blocks have one of their own. -/
def cellThreshold (heap : Int) (region : Region) : Int :=
  if region == .global || region == .stack then p.threshold else heap

def setLevel (v : Var) (l : TrackingLevel) : Precision := { p with levels := p.levels.insert v.index l }

def setCellLevel (region : Region) (offset : Int64) (l : TrackingLevel) : Precision :=
  { p with cellLevels := p.cellLevels.insert region offset l }

def remember (v : Var) (a : Based) : Precision :=
  let known := ((p.seen[v.index]?).map Prod.snd).getD []
  { p with seen := p.seen.insert v.index (v, AbstractValue.insert known a) }

def rememberAt (region : Region) (offset : Int64) (a : Based) : Precision :=
  let known := (p.seenAt.find? region offset).getD []
  { p with seenAt := p.seenAt.insert region offset (AbstractValue.insert known a) }

def regionCount (as : List Based) : Nat := (as.map Based.region).eraseDups.length

/-- The level that a place gets after some values have been met: it changes when they exceed the
threshold. `tolerance` is the number of regions that are told apart. -/
def loweredLevel (threshold tolerance : Int) (as : List Based) : Option TrackingLevel :=
  if (as.length : Int) > threshold then
    if (regionCount as : Int) > tolerance then some .nothing else some .region
  else none

end Precision

end FlowRecovery
