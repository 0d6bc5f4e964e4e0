import Std.Data.TreeMap

/-!
# Maps with two keys

A map from a left key and a right key to values, held as one row per left key; a row is ordered by
right keys. Erasing the last entry of a row erases the row; rows that are thinned out otherwise may
stay behind empty, which `equals` does not see.
-/

namespace FlowRecovery

/-- A map from pairs of keys to values. -/
structure PairMap (K L V : Type) [Ord L] where
  rows : List (K × Std.TreeMap L V) := []

namespace PairMap

variable {K L V : Type} [BEq K] [Ord L]

instance : Inhabited (PairMap K L V) := ⟨⟨[]⟩⟩

def empty : PairMap K L V := ⟨[]⟩

variable (m : PairMap K L V) (k : K)

def row? : Option (Std.TreeMap L V) := m.rows.lookup k

def find? (l : L) : Option V := (m.row? k).bind (·[l]?)

def contains (l : L) : Bool := (m.find? k l).isSome

def hasRow : Bool := (m.row? k).isSome

def setRow (rows : List (K × Std.TreeMap L V)) (k : K) (r : Std.TreeMap L V) : List (K × Std.TreeMap L V) :=
  match rows with
  | [] => [(k, r)]
  | (k', r') :: rest => if k == k' then (k', r) :: rest else (k', r') :: setRow rest k r

def insert (m : PairMap K L V) (k : K) (l : L) (v : V) : PairMap K L V :=
  ⟨setRow m.rows k (((m.row? k).getD {}).insert l v)⟩

def eraseRow : PairMap K L V := ⟨m.rows.filter (fun p => !(k == p.1))⟩

/-- The map without an entry; a row that gets empty goes, too. -/
def erase (m : PairMap K L V) (k : K) (l : L) : PairMap K L V :=
  match m.row? k with
  | none => m
  | some r =>
    let r := r.erase l
    if r.isEmpty then m.eraseRow k else ⟨setRow m.rows k r⟩

/-- Keeps the entries of a row whose right key passes a test. The row stays, even if it gets empty.
-/
def filterRow (p : L → Bool) : PairMap K L V :=
  match m.row? k with
  | none => m
  | some r => ⟨setRow m.rows k (r.filter (fun l _ => p l))⟩

def size (m : PairMap K L V) : Nat := m.rows.foldl (fun n p => n + p.2.size) 0

def isEmpty : Bool := m.size == 0

def toList (m : PairMap K L V) : List (K × L × V) :=
  m.rows.flatMap (fun (k, r) => r.toList.map (fun (l, v) => (k, l, v)))

def rowList : List (L × V) := ((m.row? k).map (·.toList)).getD []

/-- Puts every entry of the map into it once more. The entries of the other map are not looked at,
so nothing is added. -/
def insertAll (m _other : PairMap K L V) : PairMap K L V := m.toList.foldl (fun m (k, l, v) => m.insert k l v) m

def rowEquals (eq : V → V → Bool) (r s : Std.TreeMap L V) : Bool :=
  r.size == s.size && r.toList.all (fun (l, v) =>
    match s[l]? with
    | some w => eq v w
    | none => false)

def equals (eq : V → V → Bool) (m n : PairMap K L V) : Bool :=
  m.size == n.size && m.rows.all (fun (k, r) =>
    match n.row? k with
    | none => r.isEmpty
    | some s => rowEquals eq s r)

end PairMap

end FlowRecovery
