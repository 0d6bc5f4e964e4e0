import FlowRecovery.Word

/-!
# Scattered order

Entries of some tables are visited bucket by bucket: an entry's bucket is given by a hash number of
its key and the size of the table, which is a power of two that grows with the number of entries.
Inside a bucket the oldest entry comes first.
-/

namespace FlowRecovery.Scatter

def spread (h : Int) : Nat :=
  let n := (h % 4294967296).toNat
  n ^^^ (n >>> 16)

/-- The size of the table for a number of entries: three quarters of it suffice. -/
def capacity (count : Nat) : Nat := go 32 16
where
  go : Nat → Nat → Nat
    | 0, size => size
    | n + 1, size => if 4 * count > 3 * size then go n (2 * size) else size

/-- The entries in the order in which a table of a size visits them; `hash` is the hash number of an
entry's key. -/
def orderIn {α : Type} (size : Nat) (hash : α → Int) (entries : List α) : List α :=
  ((entries.map (fun e => (spread (hash e) % size, e))).mergeSort (fun a b => a.1 ≤ b.1)).map Prod.snd

def order {α : Type} (hash : α → Int) (entries : List α) : List α := orderIn (capacity entries.length) hash entries

/-- The size of a table that is made for a number of entries at once: a quarter of it and one place
stay free. -/
def copyCapacity (count : Nat) : Nat := go 32 16
where
  go : Nat → Nat → Nat
    | 0, size => size
    | n + 1, size => if size < count * 4 / 3 + 1 then go n (2 * size) else size

def copyOrder {α : Type} (hash : α → Int) (entries : List α) : List α :=
  orderIn (copyCapacity entries.length) hash entries

def put {κ β : Type} [BEq κ] : List (κ × β) → κ → β → List (κ × β)
  | [], k, v => [(k, v)]
  | (k', v') :: rest, k, v => if k' == k then (k', v) :: rest else (k', v') :: put rest k v

end FlowRecovery.Scatter
