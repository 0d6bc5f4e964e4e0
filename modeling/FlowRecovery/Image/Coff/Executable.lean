import FlowRecovery.Image.Coff.Basic

/-!
# Linked images

An executable starts with a program for an older system, whose header says where the headers of the
image are. Besides its sections it has a table of exported names and a table of imported ones: the
loader writes the address of each imported name to a slot.
-/

namespace FlowRecovery.Coff

/-- A name that an executable imports. -/
structure Import where
  slot : Int64
  library : String
  name : String

/-- A linked image. -/
structure Executable where
  layout : Layout
  imports : List Import
  /-- The exported names with their addresses; nothing if there is no table of exports. -/
  exports : Option (List (String × Int64))

/-! ### Headers -/

/-- Reads the header of the older program; returns where the headers of the image are. -/
def readStub : FileReader Int := do
  if (← FileReader.word) ≠ 0x5A4D then throw .unrecognized
  let _ ← FileReader.bytes 58
  let position ← FileReader.dword
  let rest := wrap32 (position - 64)
  if rest < 0 ∨ (← get) + rest > (← read).size then throw .unrecognized
  return position

/-- What an image header says. -/
structure ImageHeader where
  entry : Int
  base : Int64
  tables : List Int

def readTables (n : Nat) : FileReader (List Int) :=
  FileReader.times n (do
    let address ← FileReader.dword
    let _ ← FileReader.dword
    return address)

def ImageHeader.read : FileReader ImageHeader := do
  let magic ← FileReader.word
  let _ ← FileReader.byte
  let _ ← FileReader.byte
  let skip (n : Nat) : FileReader Unit := (List.range n).forM (fun _ => do let _ ← FileReader.dword)
  let skipWords (n : Nat) : FileReader Unit := (List.range n).forM (fun _ => do let _ ← FileReader.word)
  let skipLong (n : Nat) : FileReader Unit := (List.range n).forM (fun _ => do let _ ← FileReader.int64)
  skip 3
  let entry ← FileReader.dword
  skip 1
  let base ←
    if magic = 0x10b then do
      skip 1
      let base ← FileReader.dword
      skip 2
      skipWords 6
      skip 4
      skipWords 2
      skip 5
      pure (Int64.ofInt base)
    else if magic = 0x20b then do
      let base ← FileReader.int64
      skip 2
      skipWords 6
      skip 4
      skipWords 2
      skipLong 4
      skip 1
      pure base
    else throw .unrecognized
  let count ← FileReader.dword
  if wrap32 count < 0 then throw .negativeSize
  return ⟨entry, base, ← readTables count.toNat⟩

/-! ### Exports -/

def seekTo (l : Layout) (rva : Int) : FileReader Unit := FileReader.seek (l.positionOf (.ofInt rva)).toInt

/-- The entries of an export table: the address of each, and its name if there is one. -/
abbrev ExportEntries := List (Option (Option String × Int64))

/-- Reads the names of exported addresses from `count` places at `names`. Each name has a number at
`ordinals`, which says what entry it belongs to. -/
def readExportNames (l : Layout) (entries : ExportEntries) : Nat → Int → Int → FileReader ExportEntries
  | 0, _, _ => return entries
  | count + 1, names, ordinals => do
    FileReader.seek names
    let rva ← FileReader.dword
    seekTo l rva
    let name ← FileReader.text
    FileReader.seek ordinals
    let n ← FileReader.word
    match entries[n.toNat]? with
    | none => throw .outsideArray
    | some none => throw .absent
    | some (some (_, a)) =>
      readExportNames l (entries.set n.toNat (some (some name, a))) count (names + 4) (ordinals + 2)

def readExports (l : Layout) (table : Int) : FileReader (List (String × Int64)) := do
  seekTo l table
  let _ ← FileReader.bytes 16
  let first ← FileReader.dword
  let count ← FileReader.dword
  let nameCount ← FileReader.dword
  let addresses ← FileReader.dword
  let names ← FileReader.dword
  let ordinals ← FileReader.dword
  seekTo l addresses
  if wrap32 count < 0 then throw .negativeSize
  let entries ← FileReader.times count.toNat (do
    let rva ← FileReader.dword
    return if rva > 0 then some ((none : Option String), Int64.ofInt rva + l.base) else none)
  let position (rva : Int) : Int := (l.positionOf (.ofInt rva)).toInt
  let entries ← readExportNames l entries nameCount.toNat (position names) (position ordinals)
  return entries.zipIdx.filterMap (fun (e, i) => e.map (fun (name, a) =>
    (name.getD ("ord(" ++ toString (wrap32 (i + first)) ++ ")"), a)))

/-! ### Imports -/

def lowerCase (s : String) : String :=
  s.map (fun c => if 0xC0 ≤ c.toNat ∧ c.toNat ≤ 0xDE ∧ c.toNat ≠ 0xD7 then Char.ofNat (c.toNat + 32) else c.toLower)

/-- What an import table says about a library. -/
structure ImportDescriptor where
  lookupThunks : Int
  isBound : Bool
  name : Int
  thunks : Int

def readDescriptors : Nat → FileReader (List ImportDescriptor)
  | 0 => throw .unreadable
  | limit + 1 => do
    let lookupThunks ← FileReader.dword
    let time ← FileReader.dword
    let _ ← FileReader.dword
    let name ← FileReader.dword
    let thunks ← FileReader.dword
    if lookupThunks = 0 then return []
    return ⟨lookupThunks, time ≠ 0, name, thunks⟩ :: (← readDescriptors limit)

def readThunkName (l : Layout) (thunk : Int) : FileReader String := do
  if thunk ≥ 0x80000000 then return "ord(" ++ toString (thunk - 0x80000000) ++ ")"
  let pos := (l.positionOf (.ofInt thunk)).toInt
  if pos < 0 then throw .unrecognized
  FileReader.seek (pos + 2)
  FileReader.text

def readThunks (l : Layout) (library : String) : Nat → Int → Int64 → FileReader (List Import)
  | 0, _, _ => throw .unreadable
  | limit + 1, pos, slot => do
    FileReader.seek pos
    let thunk ← FileReader.dword
    if thunk = 0 then return []
    let name ← readThunkName l thunk
    return ⟨slot, library, name⟩ :: (← readThunks l library limit (pos + 4) (slot + 4))

def readImports (l : Layout) (table : Int) : FileReader (List Import) := do
  seekTo l table
  let limit := (← read).size + 1
  let descriptors ← readDescriptors limit
  let imports ← descriptors.mapM (fun d => do
    seekTo l d.name
    let library := lowerCase (← FileReader.text)
    let start := l.positionOf (.ofInt (if d.isBound then d.lookupThunks else d.thunks))
    readThunks l library limit start.toInt (.ofInt d.thunks + l.base))
  return imports.flatten

/-! ### The image -/

def addImport : List Import → Import → List Import
  | [], i => [i]
  | j :: js, i => if j.slot == i.slot then i :: js else j :: addImport js i

def Executable.read : FileReader Executable := do
  FileReader.seek (← readStub)
  if !(← FileReader.expect [0x50, 0x45, 0, 0]) then throw .unrecognized
  let header ← Header.read
  let image ← ImageHeader.read
  let sections ← (List.range header.sectionCount).mapM (fun _ => Section.read)
  let layout : Layout := { isObject := false, base := image.base, entry := image.base + .ofInt image.entry, sections }
  let table (n : Nat) : FileReader Int :=
    match image.tables[n]? with
    | some rva => return rva
    | none => throw .outsideArray
  let exportTable ← table 0
  let exports ← if exportTable > 0 then do pure (some (← readExports layout exportTable)) else pure none
  let importTable ← table 1
  let imports ← if importTable > 0 then readImports layout importTable else pure []
  return ⟨layout, imports.foldl addImport [], exports⟩

def Executable.ofFile (file : ByteArray) : Faulty Executable := do
  let (e, _) ← (Executable.read.run file).run 0
  return e

end FlowRecovery.Coff
