import FlowRecovery.Image.FileReader
import FlowRecovery.Image.Symbol

/-!
# Images with a section table

An ELF file says in its header where its table of sections is. Sections have an address and a
position in the file, and tables of symbols are sections themselves. Numbers have 32 or 64 bits,
lowest byte first or last, as the header says.

Positions beyond the end of the file may be moved to, but nothing can be read there: a file whose
header, sections or symbols cannot be read is not of this format.
-/

namespace FlowRecovery.Elf

/-- How numbers are written. -/
structure Encoding where
  isLong : Bool
  lowestFirst : Bool

/-- A section of an image. -/
structure Section where
  nameIndex : Int64
  type : Int64
  address : Int64
  position : Int64
  size : Int64
  link : Int64
  info : Int64
  entrySize : Int64
  deriving Inhabited

/-- A symbol. -/
structure Symbol where
  nameIndex : Int64
  value : Int64
  isFunction : Bool
  sectionNumber : Int

namespace Section

variable (s : Section)

def isProgram : Bool := s.type == 1

def isEmpty : Bool := s.type == 8

def isRelocation : Bool := s.type == 4 || s.type == 9

def isDynamic : Bool := s.type == 6

end Section

/-! ### Numbers -/

def seek (pos : Int64) : FileReader Unit := do
  if pos < 0 then throw .unrecognized
  set pos.toInt

variable (enc : Encoding)

def Encoding.unsigned (n : Nat) : FileReader Int := do
  let file ← readThe ByteArray
  if (← get) + n > file.size then throw .unrecognized
  let bytes ← FileReader.times n FileReader.byte
  return FileReader.assemble (if enc.lowestFirst then bytes else bytes.reverse)

def Encoding.int : FileReader Int64 := do return .ofInt (wrap32 (← enc.unsigned 4))

def Encoding.short : FileReader Int := do return (← enc.unsigned 2).bmod 65536

def Encoding.long : FileReader Int64 := do return .ofInt (← enc.unsigned 8)

def Encoding.size : FileReader Int64 := do
  let n ← enc.long
  if n < 0 then throw .unrecognized
  return n

def Encoding.address : FileReader Int64 := do return .ofInt (← enc.unsigned (if enc.isLong then 8 else 4))

def Encoding.offset : FileReader Int64 := if enc.isLong then enc.size else enc.int

/-! ### The header and the sections -/

/-- What the header says. -/
structure Header where
  encoding : Encoding
  entry : Int64
  sections : Int64
  sectionSize : Nat
  sectionCount : Nat
  names : Nat

def Header.read : FileReader Header := do
  let plain : Encoding := ⟨false, true⟩
  set (0 : Int)
  let mark ← FileReader.times 4 (plain.unsigned 1)
  let kind ← plain.unsigned 1
  let order ← plain.unsigned 1
  let _ ← FileReader.times 10 (plain.unsigned 1)
  if mark ≠ [0x7f, 0x45, 0x4c, 0x46] then throw .unrecognized
  if kind ≠ 1 ∧ kind ≠ 2 then throw .unrecognized
  let enc : Encoding := ⟨kind = 2, order = 1⟩
  let _ ← enc.short
  let _ ← enc.short
  let _ ← enc.int
  let entry ← enc.address
  let _ ← enc.offset
  let sections ← enc.offset
  let _ ← enc.int
  let _ ← FileReader.times 3 (enc.short)
  let sectionSize ← enc.unsigned 2
  let sectionCount ← enc.unsigned 2
  let names ← enc.unsigned 2
  return ⟨enc, entry, sections, sectionSize.toNat, sectionCount.toNat, names.toNat⟩

def Section.read (h : Header) (n : Nat) : FileReader Section := do
  let enc := h.encoding
  seek (h.sections + .ofNat (n * h.sectionSize))
  let nameIndex ← enc.int
  let type ← enc.int
  let _ ← if enc.isLong then enc.long else enc.int
  let address ← enc.address
  let position ← enc.offset
  let extent ← enc.offset
  let link ← enc.int
  let info ← enc.int
  let _ ← if enc.isLong then enc.long else enc.int
  let entrySize ← enc.offset
  return { nameIndex, type, address, position, size := extent, link, info, entrySize }

def readSections (h : Header) : FileReader (List Section) :=
  if h.sections = 0 then return []
  else (List.range h.sectionCount).mapM (Section.read h)

/-! ### Symbols -/

def Symbol.read (pos : Int64) : FileReader Symbol := do
  seek pos
  let nameIndex ← enc.int
  if enc.isLong then
    let info ← enc.unsigned 1
    let _ ← enc.unsigned 1
    let sectionNumber ← enc.short
    let value ← enc.address
    let _ ← enc.size
    return ⟨nameIndex, value, info % 16 = 2, sectionNumber⟩
  else
    let value ← enc.address
    let _ ← enc.int
    let info ← enc.unsigned 1
    let _ ← enc.unsigned 1
    let sectionNumber ← enc.short
    return ⟨nameIndex, value, info % 16 = 2, sectionNumber⟩

def readSymbolsFrom (enc : Encoding) (step : Int64) : Nat → Int64 → FileReader (List Symbol)
  | 0, _ => return []
  | count + 1, pos => do
    let s ← Symbol.read enc pos
    return s :: (← readSymbolsFrom enc step count (pos + step))

def readSymbols (s : Section) : FileReader (List Symbol) := do
  let count ←
    if s.entrySize = 0 then pure 1
    else
      let step := Word.low32 s.entrySize
      if step = 0 then throw .divisionByZero
      pure (wrap32 ((Word.low32 s.size).tdiv step))
  if count < 0 then throw (.illegalArgument (some ("Illegal Capacity: " ++ toString count)))
  readSymbolsFrom enc s.entrySize count.toNat s.position

def readTable (sections : List Section) (type : Int64) : FileReader (Option Section × List Symbol) := do
  match sections.find? (·.type == type) with
  | some s => return (some s, ← readSymbols enc s)
  | none => return (none, [])

/-! ### Names -/

/-- The character of a byte: a byte with the highest bit set stands for a character of the highest
page. -/
def charOf (b : UInt8) : Char := Char.ofNat (if b < 128 then b.toNat else 0xFF00 + b.toNat)

def charsFrom (file : ByteArray) : Nat → Nat → List Char
  | 0, _ => []
  | limit + 1, pos =>
    if h : pos < file.size then
      if file[pos] = 0 then [] else charOf file[pos] :: charsFrom file limit (pos + 1)
    else []

variable (file : ByteArray)

def nameIn (names : Section) (index : Int) : String :=
  if index > names.size.toInt then ""
  else
    let pos := names.position + .ofInt index
    if pos < 0 then "" else String.ofList (charsFrom file file.size pos.toInt.toNat)

def linked (sections : List Section) (s : Section) : Faulty Section :=
  let n := Word.low32 s.link
  if n < 0 then .error .outsideArray
  else match sections[n.toNat]? with
    | some t => .ok t
    | none => .error .outsideArray

def Symbol.name (sections : List Section) (table : Section) (s : Symbol) : Faulty String := do
  return nameIn file (← linked sections table) (Word.low32 s.nameIndex)

def bytesAt (pos size : Nat) : List UInt8 :=
  let found := (file.extract pos (pos + size)).toList
  found ++ List.replicate (size - found.length) 0

def sectionNames (sections : List Section) (number : Nat) : Faulty (Option (List UInt8)) :=
  if number > sections.length then .ok none
  else match sections[number]? with
    | none => .error .outsideArray
    | some s =>
      let size := Word.low32 s.size
      if size ≤ 0 ∨ size > file.size then .ok none
      else if s.position < 0 then .ok (some (List.replicate size.toNat 0))
      else .ok (some (bytesAt file s.position.toInt.toNat size.toNat))

def Section.name (file : ByteArray) (sections : List Section) (number : Nat) (s : Section) : Faulty String := do
  match ← sectionNames file sections number with
  | none => return ""
  | some bytes =>
    if s.nameIndex.toInt > bytes.length then return ""
    if s.nameIndex < 0 then throw .outsideArray
    let rest := bytes.drop s.nameIndex.toInt.toNat
    let name := rest.takeWhile (· != 0)
    if name.length = rest.length then throw .outsideArray
    return String.ofList (name.map (fun b => Char.ofNat b.toNat))

def sectionNamed (file : ByteArray) (sections : List Section) (number : Nat) (name : String) :
    Faulty (Option (Nat × Section)) :=
  go (sections.zipIdx)
where
  go : List (Section × Nat) → Faulty (Option (Nat × Section))
    | [] => .ok none
    | (s, n) :: rest => do
      if (← s.name file sections number) = name then return some (n, s)
      go rest

end FlowRecovery.Elf
