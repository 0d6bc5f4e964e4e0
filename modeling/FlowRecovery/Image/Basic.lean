import FlowRecovery.Container.ScatterOrder
import FlowRecovery.Image.Coff.Executable
import FlowRecovery.Image.Coff.Object
import FlowRecovery.Image.Elf.Linkage

/-!
# Images

An image is a file that a program consists of. Whatever its format is, it maps addresses to
positions in the file, says which addresses hold code, knows names of addresses and has places that
wait for the addresses of names.
-/

namespace FlowRecovery

/-- The format of an image, with what was read from the file. -/
inductive Format where
  | executable (e : Coff.Executable)
  | object (o : Coff.Object)
  | sectioned (e : Elf.Image)
  | raw

/-- An image. -/
structure Image where
  fileName : String
  format : Format
  /-- The bytes of the file, with the addresses that were filled in; an object file does not keep
  them. -/
  bytes : Option ByteArray
  exports : List ExportedSymbol
  unresolved : List UnresolvedSymbol
  symbols : SymbolTable

namespace Image

/-! ### Reading files -/

def tableOf (symbols : SymbolTable) : SymbolTable := symbols.foldl (fun t (a, name) => Scatter.put t a name) []

def ofExecutable (driverModel : Bool) (fileName : String) (file : ByteArray) (e : Coff.Executable) : Image :=
  let start : ExportedSymbol :=
    if driverModel && fileName.endsWith ".sys" then ⟨"_DriverEntry@8", some e.layout.entry⟩
    else ⟨"start", some e.layout.entry⟩
  let exports := start :: (e.exports.getD []).map (fun (name, a) => ⟨name, some a⟩)
  let imports := Scatter.order (fun i => addressHash i.slot) e.imports
  { fileName, format := .executable e, bytes := some file, exports
    unresolved := imports.map (fun i =>
      ⟨some i.library, i.name, Word.low32 (e.layout.filePosition i.slot), false⟩)
    symbols := tableOf (imports.map (fun i => (i.slot, i.name ++ "@" ++ i.library)) ++
      exports.filterMap (fun s => s.address.map (fun a => (a, s.name)))) }

def ofObject (fileName : String) (o : Coff.Object) : Faulty Image := do
  return { fileName, format := .object o, bytes := none, exports := ← o.exports, unresolved := o.unresolved, symbols := [] }

def ofSectioned (fileName : String) (file : ByteArray) (e : Elf.Image) : Image :=
  { fileName, format := .sectioned e, bytes := some file
    exports := e.functions.map (fun (name, a) => ⟨name, some a⟩)
    unresolved := e.imports
    symbols := tableOf (Scatter.order (addressHash ·.1) (tableOf e.symbols) ++ [(e.entry, "start")]) }

def ofRaw (fileName : String) (file : ByteArray) : Image :=
  { fileName, format := .raw, bytes := some file, exports := [], unresolved := [], symbols := [] }

/-- Tries the formats one after the other: a file that is of none of them is nothing but code. -/
def ofFile (driverModel : Bool) (fileName : String) (file : ByteArray) : Faulty Image :=
  match Coff.Executable.ofFile file with
  | .ok e => .ok (ofExecutable driverModel fileName file e)
  | .error .unrecognized =>
    match Coff.Object.ofFile file with
    | .ok o => ofObject fileName o
    | .error .unrecognized =>
      match Elf.Image.ofFile file with
      | .ok e => .ok (ofSectioned fileName file e)
      | .error .unrecognized => .ok (ofRaw fileName file)
      | .error f => .error f
    | .error f => .error f
  | .error f => .error f

/-! ### Addresses -/

variable (i : Image)

def layout? : Option Coff.Layout :=
  match i.format with
  | .executable e => some e.layout
  | .object o => some o.layout
  | _ => none

def isCoff : Bool := i.layout?.isSome

def entry (i : Image) : Int64 :=
  match i.format with
  | .executable e => e.layout.entry
  | .object o => o.layout.entry
  | .sectioned e => e.entry
  | .raw => 0

def filePosition (i : Image) (a : Int64) : Int64 :=
  match i.format with
  | .executable e => e.layout.filePosition a
  | .object o => o.layout.filePosition a
  | .sectioned e => Elf.positionOf e.sections a
  | .raw => a

def addressOf (i : Image) (pos : Int64) : Faulty (Option Int64) :=
  match i.format with
  | .executable e => .ok (e.layout.addressOf pos)
  | .object o => .ok (o.layout.addressOf pos)
  | .sectioned e => (Elf.addressOf e.sections pos).map some
  | .raw => .ok (some pos)

def isCode (i : Image) (a : Int64) : Bool :=
  match i.format with
  | .executable e => e.layout.isCode a
  | .object o => o.layout.isCode a
  | .sectioned e =>
    ((e.sections.find? (fun s => a ≥ s.address && a < s.address + s.size)).map Elf.Section.isProgram).getD false
  | .raw => true

def isReadOnly (i : Image) (a : Int64) : Bool := (i.layout?.map (·.isReadOnly a)).getD false

def isLinkage (a : Int64) : Faulty Bool :=
  match i.format with
  | .sectioned e =>
    match (e.sections.zip e.names).find? (fun (s, _) => a ≥ s.address && a ≤ s.address + s.size) with
    | none => .ok false
    | some (_, name) => name.map (· == ".plt")
  | _ => .ok false

def minAddress (i : Image) : Int64 :=
  match i.format with
  | .executable e => e.layout.minAddress
  | .object o => o.layout.minAddress
  | .sectioned e => e.sections.foldl (fun m s => min s.address m) Int64.maxValue
  | .raw => 0

def maxAddress (i : Image) : Int64 :=
  match i.format with
  | .executable e => e.layout.maxAddress
  | .object o => o.layout.maxAddress
  | .sectioned e => e.sections.foldl (fun m s => max (s.address + s.size) m) Int64.minValue
  | .raw => Int64.ofNat ((i.bytes.map ByteArray.size).getD 0)

def readNumber (i : Image) (a : Int64) (width : Int) : Faulty (Option Int64) :=
  match i.format with
  | .executable e => e.layout.readNumber i.bytes a width
  | .object o => o.layout.readNumber i.bytes a width
  | .sectioned e => do
    let pos := Elf.positionOf e.sections a
    if pos ≤ 0 then return none
    if width.tmod 8 ≠ 0 then throw (.violated (some "Non-byte-aligned memory reference!"))
    match i.bytes with
    | none => throw .absent
    | some file => return some (← FlowRecovery.readNumber file pos.toInt width)
  | .raw => .ok none

/-- The addresses of the bytes of sections; each step to another section looks at the section after
the present one, so the last section must not hold code. -/
def sectionedCode (sections : List Elf.Section) : List Elf.Section → Faulty (List (Option Int64))
  | [] => .error .outsideArray
  | s :: rest => do
    match (s :: rest).dropWhile (!·.isProgram), rest with
    | [], _ => return []
    | _, rest =>
      if s.isProgram ∧ s.position < 0 then return []
      else if s.isProgram then
        let own ← (List.range (max 1 s.size.toInt.toNat)).mapM (fun n =>
          return some (← Elf.addressOf sections (s.position + Int64.ofNat n)))
        return own ++ (← sectionedCode sections rest)
      else sectionedCode sections rest

def codeAddresses (i : Image) : Faulty (List (Option Int64)) :=
  match i.format with
  | .executable e => .ok e.layout.codeAddresses
  | .object o => .ok o.layout.codeAddresses
  | .sectioned e => sectionedCode e.sections e.sections
  | .raw => .error (.unsupported (some "Code iteration not yet implemented for RawModule!"))

/-! ### Names -/

def symbol? (a : Int64) : Option String := i.symbols.lookup a

def symbolText (a : Int64) : String := (i.symbol? a).getD (addressText a)

def names : IA32.AddressNames :=
  match i.format with
  | .object _ | .raw => IA32.plainNames
  | _ => i.symbolText

def addressNamed (name : String) : Option Int64 :=
  ((Scatter.order (addressHash ·.1) i.symbols).reverse.find? (·.2 == name)).map Prod.fst

/-! ### Filling in addresses -/

def littleEndian (v : Int64) : List UInt8 :=
  ([0, 8, 16, 24] : List UInt64).map (fun n => (v.toUInt64 >>> n).toUInt8)

def overwrite (file : ByteArray) (pos : Nat) (v : Int64) : ByteArray :=
  (littleEndian v).zipIdx.foldl (fun f (b, n) => f.set! (pos + n) b) file

def valueFor (s : UnresolvedSymbol) (target : Int64) : Faulty Int64 := do
  if s.relative then
    match ← i.addressOf (.ofInt (wrap32 (s.place + 4))) with
    | some a => return target - a
    | none => throw .absent
  else return target

def resolve (s : UnresolvedSymbol) (target : Option Int64) : Faulty Image := do
  match i.bytes with
  | none => throw .absent
  | some file =>
    match target with
    | none => throw .absent
    | some target =>
      let value ← i.valueFor s target
      let _ ← i.addressOf (.ofInt s.place)
      let _ ← [0, 1, 2, 3].mapM (fun n => FileReader.byteAt file (s.place + n))
      return { i with bytes := some (overwrite file s.place.toNat value) }

end Image

end FlowRecovery
