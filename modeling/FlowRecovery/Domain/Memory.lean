import FlowRecovery.Container.MapPool
import FlowRecovery.Domain.Value
import FlowRecovery.Options.Basic
import FlowRecovery.Spec.Registers

/-!
# Abstract memory

Abstract memory maps byte offsets of memory regions to cells. A cell holds one abstract value for
all its bytes, and is found under the offset of each of them. What is not in memory is unknown, but
for global memory, which holds the initial data of the program as long as nothing has been written
to unknown places (`dataIsTop`).

Operations on memory depend on a `Setting`: the options of the run, the initial data, and the
factory of values. Updates can fail half-way; `Update` keeps what they have done until then.
-/

namespace FlowRecovery

/-- What the operations of an analysis depend on. -/
structure Surroundings where
  options : Options := {}
  registers : Registers
  /-- The number of a bit width that the program starts with at an address. The truth value says
  that data may have been overwritten, so that only read-only places count. -/
  initial : Bool → Int64 → Int → Faulty (Option Num) := fun _ _ _ => .ok none
  isSummary : Region → Bool := Region.isSite

/-- Surroundings, and how abstract values are made in them. -/
structure Setting (A : Type) extends Surroundings where
  factory : Factory A

/-- A value for `size` bytes from `offset` on. -/
structure Cell (A : Type) where
  offset : Int64
  size : Int
  contents : A
  deriving DecidableEq

def Cell.width {A : Type} (c : Cell A) : Int := wrap32 (c.size * 8)

/-- Abstract memory. -/
structure Memory (A : Type) where
  cells : PairMap Region Int64 (Cell A) := .empty
  dataIsTop : Bool := false
  deriving Inhabited

abbrev Update (A : Type) := ExceptT Fault (StateM (Memory A))

namespace Memory

variable {A : Type} [AbstractValue A]

def requireKnown {m : Type → Type} [Monad m] [MonadExceptOf Fault m] (region : Region) : m Unit :=
  if region = .top then throw (.violated none) else pure ()

def bytes (offset : Int64) (size : Int) : List Int64 :=
  (List.range size.toNat).map (fun i => offset + Int64.ofNat i)

def changeCells (f : PairMap Region Int64 (Cell A) → PairMap Region Int64 (Cell A)) : Update A Unit :=
  modify (fun m => { m with cells := f m.cells })

/-! ### Writing -/

variable (s : Setting A)

def setTop : Update A Unit := do
  if s.options.ignoreWeakUpdates then return
  set ({ cells := .empty, dataIsTop := true } : Memory A)
  if s.options.debug then throw (.unknownPointer "Set all memory regions to TOP!")

def setRegionTop (region : Region) : Update A Unit := do
  if region = .top then
    setTop s
  else if !s.options.ignoreWeakUpdates then
    modify (fun m => { cells := m.cells.eraseRow region, dataIsTop := m.dataIsTop || region == .global })
    if s.options.debug && region == .stack then throw (.unknownPointer "Set all of stack to TOP!")

/-- Forgets one byte. In global memory an unknown value takes its place, because the initial data is
gone. -/
def setByteTop (region : Region) (offset : Int64) : Update A Unit := do
  if (s.options.emptyHeap && region != .stack) || region == .global then
    let top ← s.factory.top 8
    changeCells (·.insert region offset ⟨offset, 1, top⟩)
  else changeCells (·.erase region offset)

def write (region : Region) (offset : Int64) (width : Int) (value : A) : Update A Unit := do
  requireKnown region
  match AbstractValue.width? value with
  | some w =>
    if w ≠ width then throw (.violated (some ("Memory access bitwidth " ++ toString width ++
      " does not match bitwidth of value to set: " ++ toString w)))
  | none => pure ()
  let size := width.tdiv 8
  (bytes offset size).forM (fun o => do
    match (← get).cells.find? region o with
    | some old => (bytes old.offset old.size).forM (setByteTop s region)
    | none => pure ())
  if !(← AbstractValue.isTop value) || region == .global then
    (bytes offset size).forM (fun o => changeCells (·.insert region o ⟨offset, size, value⟩))

/-! ### Reading -/

def part (value : A) (first last : Int) : Faulty (Option A) := do
  match ← AbstractValue.concretize value with
  | .all => return none
  | .listed ns => return some (← s.factory.several (ns.map (Num.bits first last)))

/-- All numbers that have the low bytes of one of `lower` and then a byte of `upper`. The highest
byte keeps its sign. -/
def prependByte (i : Nat) (isLast : Bool) (lower upper : List Num) : List Num :=
  upper.flatMap (fun u => lower.map (fun l =>
    let byte := if isLast then u.value else u.value &&& 0xFF
    Num.of (l.value ||| Word.shiftLeft byte (i * 8)) ((i + 1) * 8)))

variable (m : Memory A)

def readInitial (offset : Int64) (width : Int) : Faulty A := do
  match ← s.initial m.dataIsTop offset width with
  | some n => s.factory.single n
  | none => s.factory.top width

/-- Reads a value that is a cell or a part of one. If a smaller cell starts at the offset, `compose`
gives the numbers of all bytes together. -/
def readWith (compose : Faulty (Option (List Num))) (region : Region)
    (offset : Int64) (width : Int) : Faulty A := do
  let size := width.tdiv 8
  match m.cells.find? region offset with
  | some cell =>
    if cell.offset = offset ∧ cell.size = size then return cell.contents
    if cell.size > size ∧ cell.offset + Int64.ofInt cell.size ≥ offset + Int64.ofInt size then
      let first := wrap32 ((offset - cell.offset) * 8).toInt
      if first < 0 then throw (.violated none)
      match ← part s cell.contents first (wrap32 (first + width - 1)) with
      | some a => return a
      | none => s.factory.top width
    else if cell.offset = offset ∧ cell.size < size then
      match ← compose with
      | some ns => s.factory.several ns
      | none => s.factory.top width
    else s.factory.top width
  | none => if region = .global then readInitial s m offset width else s.factory.top width

def readByte (region : Region) (offset : Int64) : Faulty A :=
  readWith s m (.ok none) region offset 8

/-- The numbers made of the bytes at some offsets, lowest first, if they can be listed. The numbers
below byte `i` are `lower`. -/
def readBytes (s : Setting A) (m : Memory A) (region : Region) (i : Nat) (lower : List Num) :
    List Int64 → Faulty (Option (List Num))
  | [] => .ok (some lower)
  | o :: os => do
    match ← AbstractValue.concretize (← readByte s m region o) with
    | .all => return none
    | .listed ns => readBytes s m region (i + 1) (prependByte i os.isEmpty lower ns) os

/-- Reads a value: a cell, a part of one, or the bytes from a smaller one on. -/
def read (region : Region) (offset : Int64) (width : Int) : Faulty A := do
  requireKnown region
  readWith s m (readBytes s m region 0 [Num.of 0 8] (bytes offset (width.tdiv 8))) region offset width

/-! ### Other changes -/

def weakWrite (region : Region) (offset : Int64) (width : Int) (value : A) : Update A Unit := do
  requireKnown region
  let m ← get
  let old ← m.read s region offset width
  if s.options.emptyHeap && (← AbstractValue.isTop old) && !m.cells.contains region offset then
    write s region offset width value
  else write s region offset width (← AbstractValue.join value old)

/-- Copies `size` bytes. Where a cell of the source region starts at the *target* offset, it is
copied whole. -/
def copy (s : Setting A) (source : Region) (from_ : Int64) (target : Region) (into : Int64) (size : Int64) :
    Update A Unit :=
  go size.toInt.toNat 0
where
  /-- Copies from byte `i` on; every step copies a byte at least. -/
  go : Nat → Int64 → Update A Unit
    | 0, _ => pure ()
    | n + 1, i => do
      if i < size then
        let o := into + i
        let m ← get
        match (m.cells.find? source o).filter (·.offset = o) with
        | some cell =>
          write s target o cell.width cell.contents
          go n (i + Int64.ofInt cell.size)
        | none =>
          write s target o 8 (← m.read s source (from_ + i) 8)
          go n (i + 1)

def forgetStackBelow (offset : Int64) (m : Memory A) : Memory A :=
  { m with cells := m.cells.filterRow .stack (fun o => !(o < offset)) }

/-! ### Order -/

def heads (entries : List (Int64 × Cell A)) : List (Cell A) :=
  entries.filterMap (fun (o, c) => if o = c.offset then some c else none)

def allHeads : List (Region × Cell A) :=
  m.cells.rows.flatMap (fun (r, row) => (heads row.toList).map (fun c => (r, c)))

def globalHeads : List (Cell A) := heads (m.cells.rowList .global)

def join (s : Setting A) (m n : Memory A) : Faulty (Memory A) := do
  let build : Update A Unit := do
    m.globalHeads.forM (fun c => do
      write s .global c.offset c.width (← AbstractValue.join c.contents (← n.read s .global c.offset c.width)))
    n.allHeads.forM (fun (r, c) => do
      write s r c.offset c.width (← AbstractValue.join c.contents (← m.read s r c.offset c.width)))
  match build.run.run {} with
  | (.ok (), r) => return { r with dataIsTop := n.dataIsTop || m.dataIsTop }
  | (.error f, _) => throw f

def allM {β : Type} (test : β → Faulty Bool) : List β → Faulty Bool
  | [] => .ok true
  | b :: bs => do if ← test b then allM test bs else return false

/-- The order: everything that the second memory knows is known to the first. -/
def lessOrEqual (s : Setting A) (m n : Memory A) : Faulty Bool := do
  if ← allM (fun (r, c) => do AbstractValue.lessOrEqual (← m.read s r c.offset c.width) c.contents) n.allHeads then
    allM (fun c => do AbstractValue.lessOrEqual c.contents (← n.read s .global c.offset c.width)) m.globalHeads
  else return false

def isTop : Bool := m.dataIsTop && m.cells.isEmpty

def cellEquals (c d : Cell A) : Bool :=
  AbstractValue.equals c.contents d.contents && c.offset == d.offset && c.size == d.size

def equals (m n : Memory A) : Bool := m.dataIsTop == n.dataIsTop && m.cells.equals cellEquals n.cells

def offsetDigest (offset : Int64) : UInt32 := (offset.toUInt64 ^^^ (offset.toUInt64 >>> 32)).toUInt32

/-- The digest of memory, from digests of regions and of values. -/
def digest (region : Region → UInt32) (contents : A → UInt32) (m : Memory A) : UInt32 :=
  let cell (c : Cell A) : UInt32 :=
    31 * (31 * (31 + contents c.contents) + offsetDigest c.offset) + UInt32.ofInt c.size
  m.cells.digest region offsetDigest cell + if m.dataIsTop then 1 else 0

/-- The text of an offset: an address in global memory, a number elsewhere. -/
def offsetText (r : Region) (offset : Int64) : String :=
  if r = .global then "0x" ++ Text.hex32 offset.toInt else toString offset.toInt

def rowText (r : Region) (cells : List (Int64 × Cell A)) : Faulty String := do
  let heads ← (cells.filter (fun (offset, c) => c.offset == offset)).mapM (fun (offset, c) => do
    return offsetText r offset ++ "=" ++ (← AbstractValue.text c.contents) ++ ",")
  return " " ++ r.text ++ ": [" ++ String.join heads ++ "]"

/-- The text of memory: its regions, and what is known of the initial data. -/
def text : Faulty String := do
  let rows ← m.cells.rows.mapM (fun (r, cells) => rowText r cells.toList)
  return String.join rows ++ " SData = " ++ (if m.dataIsTop then "TOP" else "intact")

end Memory

end FlowRecovery
