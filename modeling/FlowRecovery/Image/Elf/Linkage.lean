import FlowRecovery.IA32.Code.Decoder
import FlowRecovery.Image.Elf.Basic

/-!
# Images and the procedures they import

Code calls an imported procedure through a stub in a section of its own. A stub jumps to the address
in a slot; at first the slot leads back to the stub, which pushes the place of a relocation and
jumps to the linker. The relocation has the number of the symbol, so reading the stubs tells which
slot belongs to which name.
-/

namespace FlowRecovery.Elf

/-- An image with a section table. -/
structure Image where
  entry : Int64
  sections : List Section
  names : List (Faulty String)
  imports : List UnresolvedSymbol
  functions : List (String × Int64)
  symbols : SymbolTable
  deriving Inhabited

/-! ### Addresses and positions -/

variable (sections : List Section)

def sectionAt (a : Int64) : Option Section :=
  sections.find? (fun s => a ≥ s.address && a ≤ s.address + s.size)

def positionOf (a : Int64) : Int64 :=
  match sectionAt sections a with
  | none => -1
  | some s => if s.isEmpty then -1 else a - s.address + s.position

def addressOf (pos : Int64) : Faulty Int64 :=
  match sections.find? (fun s => pos ≥ s.position && pos ≤ s.position + s.size) with
  | none => .error (.failure (some ("Filepointer " ++ toString pos.toInt ++ " matches no section?")))
  | some s => .ok (pos - s.position + s.address)

/-! ### Stubs -/

/-- A relocation's kind and the number of its symbol. -/
structure RelocationInfo where
  kind : Int
  symbol : Int

/-- The information of a relocation is four bytes, lowest first, each of them signed: the lowest is
the kind, the others are the number of the symbol. -/
def RelocationInfo.ofBytes (b0 b1 b2 b3 : Int8) : RelocationInfo :=
  let info := wrap32 (b3.toInt * 16777216 + b2.toInt * 65536 + b1.toInt * 256 + b0.toInt)
  ⟨info.bmod 256, info / 256⟩

def RelocationInfo.read (table : List UInt8) (place : Int) : Faulty RelocationInfo := do
  let byte (i : Int) : Faulty Int8 :=
    if i < 0 then .error .outsideArray
    else match table[i.toNat]? with
      | some b => .ok b.toInt8
      | none => .error .outsideArray
  let start := wrap32 (place + 4)
  return .ofBytes (← byte start) (← byte (wrap32 (start + 1))) (← byte (wrap32 (start + 2))) (← byte (wrap32 (start + 3)))

variable (file : ByteArray)

def instructionAt (pos : Int) : Faulty IA32.Instruction :=
  match if pos < 0 then none else IA32.Instruction.decode file pos.toNat with
  | some i => .ok i
  | none => .error .absent

def jumpAt (pos : Int) (detail : Option String) : Faulty IA32.Instruction :=
  match if pos < 0 then none else IA32.Instruction.decode file pos.toNat with
  | some i => if i.kind = .jump then .ok i else .error (.violated detail)
  | none => .error (.violated detail)

def slotOf (i : IA32.Instruction) : Faulty Int64 := do
  if i.kind ≠ .jump then throw .wrongKind
  match i.destination with
  | some (.memory m) => return .ofInt m.displacement
  | some _ => throw .wrongKind
  | none => throw .absent

def pushedBy (i : IA32.Instruction) : Faulty Int :=
  match i.operands.head? with
  | some (.immediate n _) => .ok (wrap32 n)
  | some _ => .error .wrongKind
  | none => .error .absent

def dwordAt (pos : Int) : Faulty Int64 := do
  let (n, _) ← ((do FileReader.seek pos; FileReader.dword : FileReader Int).run file).run 0
  return .ofInt n

/-- What the stubs say. -/
structure Linkage where
  imports : List UnresolvedSymbol := []
  symbols : SymbolTable := []

/-- What reading stubs needs to know. -/
structure LinkageContext where
  file : ByteArray
  sections : List Section
  relocations : List UInt8
  symbolName : Nat → Faulty String

/-- Skips zeros and instructions that do nothing; the first other instruction, and the position
after it. -/
def skipPadding (file : ByteArray) : Nat → Int → Faulty (IA32.Instruction × Int)
  | 0, _ => .error .outsideArray
  | limit + 1, pos => do
    if (← FileReader.byteAt file pos) = 0 then skipPadding file limit (pos + 1)
    else
      let i ← instructionAt file pos
      if i.name = "nop" then skipPadding file limit (pos + i.size) else return (i, pos + i.size)

/-- Reads stubs from one whose first instruction is `i` on. At most `limit` stubs are read, which is
as many as the file can hold. -/
def readStubs (c : LinkageContext) : Nat → IA32.Instruction → Int → Linkage → Faulty Linkage
  | 0, _, _, l => .ok l
  | limit + 1, i, pos, l => do
    let place ← addressOf c.sections (.ofInt pos)
    let slot ← slotOf i
    let slotPosition := positionOf c.sections slot
    let back ← dwordAt c.file slotPosition.toInt
    let pos := Word.low32 (positionOf c.sections back)
    let push ← instructionAt c.file pos
    let info ← RelocationInfo.read c.relocations (← pushedBy push)
    if info.kind ≠ 7 then throw (.violated none)
    let name ← if info.symbol < 0 then throw .outsideArray else c.symbolName info.symbol.toNat
    let l : Linkage := {
      imports := l.imports ++ [⟨some "ELF", name, Word.low32 slotPosition, false⟩]
      symbols := l.symbols ++ [(place, name), (slot, "__imp_" ++ name)] }
    let pos := pos + push.size
    let jump ← jumpAt c.file pos (some "Expected jmp to PLT[0] in PLT at this offset!")
    let pos := pos + jump.size
    if (← FileReader.byteAt c.file pos) = 0 then return l
    -- the end of the stubs is where no jump follows
    match IA32.Instruction.decode c.file pos.toNat with
    | none => return l
    | some next => if next.kind = .jump then readStubs c limit next pos l else return l

def readLinkage (c : LinkageContext) (stubs : Section) : Faulty Linkage := do
  let pos := Word.low32 stubs.position
  let _ ← addressOf c.sections (.ofInt pos)
  let push ← instructionAt c.file pos
  if push.name ≠ "pushl" then throw (.violated none)
  let pos := pos + push.size
  let jump ← jumpAt c.file pos none
  let (first, pos) ← skipPadding c.file (c.file.size + 1) (pos + jump.size)
  readStubs c (c.file.size + 1) first pos {}

/-! ### The image -/

def Section.data (s : Section) : Faulty (List UInt8) := do
  let size := Word.low32 s.size
  if size < 0 then throw .negativeSize
  if s.position < 0 then throw .unreadable
  return bytesAt file s.position.toInt.toNat size.toNat

def relocationsOf (sections : List Section) (names number : Nat) :
    Faulty (Option (List UInt8)) :=
  sections.foldlM (fun found s => do
    let _ ← s.name file sections names
    if !s.isRelocation then return found
    let about := Word.low32 s.info
    if about < 0 ∨ about ≥ sections.length then throw .outsideArray
    if about = number then return some (← s.data file) else return found) none

def checkDynamic (enc : Encoding) (sections : List Section) (s : Section) : Nat → Int → FileReader Unit
  | 0, _ => return
  | limit + 1, done => do
    if done < s.size.toInt then
      let tag ← if enc.isLong then enc.long else enc.int
      let _ ← if enc.isLong then enc.long else enc.int
      checkDynamic enc sections s limit (done + if enc.isLong then 16 else 8)
      if tag = 1 then let _ ← linked sections s

def Image.read : FileReader Image := do
  let file ← readThe ByteArray
  let header ← Header.read
  let enc := header.encoding
  let sections ← readSections header
  let (table, symbols) ← readTable enc sections 2
  let (dynamicTable, dynamicSymbols) ← readTable enc sections 11
  match ← sectionNamed file sections header.names ".dynamic" with
  | some (_, s) =>
    if s.isDynamic then
      seek s.position
      checkDynamic enc sections s (file.size + 1) 0
  | none => pure ()
  let functions ← (symbols.filter (fun s => s.isFunction && s.sectionNumber > 0)).mapM (fun s => do
    match table with
    | some t => return (← s.name file sections t, s.value)
    | none => throw .absent)
  let linkage : Linkage ←
    match ← sectionNamed file sections header.names ".plt" with
    | none => pure {}
    | some (n, stubs) => do
      match ← relocationsOf file sections header.names n with
      | none => pure {}
      | some relocations =>
        let symbolName (i : Nat) : Faulty String :=
          match dynamicTable, dynamicSymbols[i]? with
          | some t, some s => s.name file sections t
          | _, _ => .error .outsideArray
        readLinkage { file, sections, relocations, symbolName } stubs
  return { entry := header.entry, sections
           names := sections.map (Section.name file sections header.names)
           imports := linkage.imports, functions
           symbols := functions.map (fun (name, a) => (a, name)) ++ linkage.symbols }

def Image.ofFile : Faulty Image := do
  let (i, _) ← (Image.read.run file).run 0
  return i

end FlowRecovery.Elf
