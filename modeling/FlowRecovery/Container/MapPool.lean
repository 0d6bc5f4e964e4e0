import FlowRecovery.Container.PairMap

/-!
# Maps that share their contents

A pool holds maps under names. A copy of a map shares its contents until one of the two is changed;
the one that is changed first gets contents of its own. The digest of a map is computed when it is
first asked for and then kept with the contents. A change of contents that are not shared keeps the
digest, so a digest may be that of earlier contents.
-/

namespace FlowRecovery

namespace PairMap

variable {K L V : Type} [Ord L]

def rowDigest (right : L → UInt32) (value : V → UInt32) (r : Std.TreeMap L V) : UInt32 :=
  r.toList.foldl (fun d (l, v) => d + (right l ^^^ value v)) 0

def digest (left : K → UInt32) (right : L → UInt32) (value : V → UInt32) (m : PairMap K L V) : UInt32 :=
  m.rows.foldl (fun d (k, r) => d + (left k ^^^ rowDigest right value r)) 0

end PairMap

/-- Contents that several maps may share. -/
structure SharedMap (K L V : Type) [Ord L] where
  map : PairMap K L V := {}
  holders : Nat := 1
  /-- The digest, if it has been computed; a digest of zero is computed again. -/
  digest : UInt32 := 0

/-- Named maps, some of which share their contents. -/
structure MapPool (K L V : Type) [Ord L] where
  contents : List (SharedMap K L V) := []
  names : List (String × Nat) := []

namespace MapPool

variable {K L V : Type} [BEq K] [Ord L]

instance : Inhabited (MapPool K L V) := ⟨{}⟩

variable (p : MapPool K L V) (name : String)

/-- The contents of a name; a name that was not used before gets an empty map. -/
def locate : Nat × MapPool K L V :=
  match p.names.lookup name with
  | some i => (i, p)
  | none => (p.contents.length, { contents := p.contents ++ [{}], names := (name, p.contents.length) :: p.names })

def shared (i : Nat) : SharedMap K L V := p.contents[i]?.getD {}

def get : PairMap K L V :=
  match p.names.lookup name with
  | some i => (p.shared i).map
  | none => {}

def update (i : Nat) (f : SharedMap K L V → SharedMap K L V) : MapPool K L V :=
  { p with contents := p.contents.modify i f }

def rename (i : Nat) : MapPool K L V :=
  { p with names := (name, i) :: p.names.filter (fun n => n.1 != name) }

def copy (source target : String) : MapPool K L V :=
  let (i, p) := p.locate source
  (p.update i (fun s => { s with holders := s.holders + 1 })).rename target i

/-- Gives a map contents of its own. Tells whether they were shared before. -/
def unshare : Bool × MapPool K L V :=
  let (i, p) := p.locate name
  let s := p.shared i
  if s.holders > 1 then
    let p := p.update i (fun s => { s with holders := s.holders - 1 })
    let own : MapPool K L V := { p with contents := p.contents ++ [{ map := s.map }] }
    (true, own.rename name p.contents.length)
  else (false, p)

def modify (f : PairMap K L V → PairMap K L V) : MapPool K L V :=
  let (i, p) := (p.unshare name).2.locate name
  p.update i (fun s => { s with map := f s.map })

def digest (left : K → UInt32) (right : L → UInt32) (value : V → UInt32) (p : MapPool K L V) (name : String) :
    UInt32 × MapPool K L V :=
  let (i, p) := p.locate name
  let s := p.shared i
  let d := if s.digest = 0 then s.map.digest left right value else s.digest
  (d, p.update i (fun s => { s with digest := d }))

end MapPool

end FlowRecovery
