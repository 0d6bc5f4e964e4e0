import FlowRecovery.Image.FileReader
import FlowRecovery.Image.Symbol

/-!
# Images made of sections

A COFF image consists of sections. A section lies at an address relative to the base of the image
and at a position in the file; each way to count can be turned into the other.
-/

namespace FlowRecovery.Coff

/-- A section of an image. -/
structure Section where
  name : String
  virtualSize : Int64
  address : Int64
  size : Int64
  position : Int64
  relocations : Int
  relocationCount : Nat
  flags : Nat

namespace Section

variable (s : Section)

def has (mask : Nat) : Bool := s.flags &&& mask != 0

def isCode : Bool := s.has 0x20000020

def isReadOnly : Bool := s.has 0x40000000 && !s.has 0x80000000

def isVariant : Bool := s.has 0x1000

def isDropped : Bool := s.has 0x800 || s.has 0x2000000

end Section

/-- The sections of an image and where it lies. -/
structure Layout where
  isObject : Bool
  base : Int64
  entry : Int64
  sections : List Section

namespace Layout

variable (l : Layout)

def sectionAt (rva : Int64) : Option Section :=
  if rva < 0 then none
  else l.sections.find? (fun s =>
    if l.isObject then !s.isDropped && s.address ≤ rva && s.address + s.virtualSize > rva
    else s.address ≤ rva && s.address + s.size > rva)

def sectionIn (pos : Int64) : Option Section :=
  l.sections.find? (fun s => s.position ≤ pos && s.position + s.size > pos)

def positionOf (rva : Int64) : Int64 :=
  match l.sectionAt rva with
  | none => -1
  | some s => if rva - s.address > s.size then -1 else rva - s.address + s.position

def filePosition (a : Int64) : Int64 :=
  let p := l.positionOf (a - l.base)
  if p ≥ 0 then p else -1

def addressOf (pos : Int64) : Option Int64 :=
  match l.sectionIn pos with
  | none => none
  | some s =>
    let rva := pos - s.position + s.address
    if rva ≥ 0 then some (rva + l.base) else none

def isCode (l : Layout) (a : Int64) : Bool := ((l.sectionAt (a - l.base)).map Section.isCode).getD false

def isReadOnly (l : Layout) (a : Int64) : Bool :=
  !l.isObject && ((l.sectionAt (a - l.base)).map Section.isReadOnly).getD false

def maxAddress : Int64 :=
  l.sections.foldl (fun m s => max (s.address + s.size) m) Int64.minValue + l.base

def minAddress : Int64 := l.sections.foldl (fun m s => min s.address m) Int64.maxValue + l.base

def codeAddresses : List (Option Int64) :=
  (l.sections.filter Section.isCode).flatMap (fun s =>
    (List.range (max 1 s.size.toInt.toNat)).map (fun i => l.addressOf (s.position + Int64.ofNat i)))

/-- The number of some bits at an address, if they lie in a section. Nothing can be read without the
bytes. -/
def readNumber (l : Layout) (file : Option ByteArray) (a : Int64) (width : Int) : Faulty (Option Int64) := do
  let pos := l.filePosition a
  if (l.sectionIn pos).isNone then return none
  if width.tmod 8 ≠ 0 then throw (.violated (some "Non-byte-aligned memory reference!"))
  match file with
  | none => throw .absent
  | some file => return some (← FlowRecovery.readNumber file pos.toInt width)

end Layout

/-! ### Headers -/

/-- The header of every image. -/
structure Header where
  sectionCount : Nat
  symbols : Int
  symbolCount : Int

def Header.read : FileReader Header := do
  let machine ← FileReader.word
  let sectionCount ← FileReader.word
  let _ ← FileReader.dword
  let symbols ← FileReader.dword
  let symbolCount ← FileReader.int32
  let _ ← FileReader.word
  let _ ← FileReader.word
  if machine ≠ 0x14c then throw .unrecognized
  return ⟨sectionCount.toNat, symbols, symbolCount⟩

def nameOf (bytes : List Int) : String :=
  String.ofList ((bytes.filter (fun b => 32 < b && b < 128)).map (fun b => Char.ofNat b.toNat))

def Section.read : FileReader Section := do
  let name := nameOf (← FileReader.bytes 8)
  let virtualSize ← FileReader.dword
  let address ← FileReader.dword
  let size ← FileReader.dword
  let position ← FileReader.dword
  let relocations ← FileReader.dword
  let _ ← FileReader.dword
  let relocationCount ← FileReader.word
  let _ ← FileReader.word
  let flags ← FileReader.dword
  return { name, virtualSize := .ofInt virtualSize, address := .ofInt address, size := .ofInt size,
           position := .ofInt position, relocations, relocationCount := relocationCount.toNat, flags := flags.toNat }

end FlowRecovery.Coff
