import FlowRecovery.Image.Coff.Basic

/-!
# Images that are not linked yet

The sections of an object file are laid out one after the other when it is read. Its symbol table
names places in its own sections and symbols of other files; relocations say which bytes of the code
wait for the address of a symbol. Relocations to symbols of the file itself are carried out at once.
The bytes are not kept afterwards.
-/

namespace FlowRecovery.Coff

/-- An entry of the symbol table. -/
structure Symbol where
  name : String
  value : Int64
  sectionNumber : Int
  isExternal : Bool
  auxiliaries : Nat

/-- An image that is not linked yet. -/
structure Object where
  layout : Layout
  symbols : List Symbol
  unresolved : List UnresolvedSymbol

def readStrings (start stop : Int) : Nat → FileReader (List (Int × String))
  | 0 => return []
  | limit + 1 => do
    let pos ← get
    if pos ≥ stop then return []
    let s ← FileReader.text
    return (wrap32 (pos - start), s) :: (← readStrings start stop limit)

def stringAt (strings : List (Int × String)) (offset : Int) : Option String := strings.reverse.lookup offset

def Symbol.read (strings : List (Int × String)) : FileReader Symbol := do
  let bytes ← FileReader.bytes 8
  let name :=
    if bytes.take 4 = [0, 0, 0, 0] then
      let offset := wrap32 (FileReader.assemble (bytes.drop 4))
      (stringAt strings offset).getD ("Anonymous(" ++ toString offset ++ ")")
    else nameOf bytes
  let value ← FileReader.dword
  let sectionNumber ← FileReader.int16
  let _ ← FileReader.word
  let storage ← FileReader.byte
  let auxiliaries ← FileReader.byte
  return ⟨name, .ofInt value, sectionNumber, storage = 2, auxiliaries.toNat⟩

def plainName (name : String) : Faulty String := do
  let cs := name.toList
  let cs := if cs.head? = some '@' then cs.drop 1 else cs
  let cs := if cs.head? = some '_' then cs.drop 1 else cs
  let suffix := (cs.reverse.takeWhile (· != '@')).reverse
  if suffix ≠ [] ∧ suffix.all Char.isDigit then
    if suffix.length = cs.length then throw .outsideText
    return String.ofList (cs.take (cs.length - suffix.length - 1))
  return String.ofList cs

def layOut : Int64 → List Section → List Section
  | _, [] => []
  | next, s :: ss =>
    if s.isDropped then s :: layOut next ss
    else { s with address := next, virtualSize := s.size } :: layOut (next + s.size) ss

def sectionNumbered (sections : List Section) (n : Int) : Faulty Section :=
  if n < 1 then .error .outsideArray
  else match sections[(n - 1).toNat]? with
    | some s => .ok s
    | none => .error .outsideArray

def checkPlace (l : Layout) (file : ByteArray) (s : UnresolvedSymbol) : Faulty Unit := do
  if s.relative ∧ (l.addressOf (.ofInt (wrap32 (s.place + 4)))).isNone then throw .absent
  let _ ← [0, 1, 2, 3].mapM (fun i => FileReader.byteAt file (s.place + i))

def readRelocation (l : Layout) (code : Section) (symbols : List Symbol) : FileReader (Option UnresolvedSymbol) := do
  let rva ← FileReader.dword
  let index ← FileReader.int32
  let type ← FileReader.int16
  let symbol ←
    if index < 0 then throw .outsideArray
    else match symbols[index.toNat]? with
      | some s => pure s
      | none => throw .outsideArray
  if type ≠ 6 ∧ type ≠ 20 then
    throw (.failure (some ("Unknown addressing type for unresolved symbol RVA = " ++ toString rva ++ " tableIndex = " ++
      toString index ++ " type " ++ toString type)))
  let name ← plainName symbol.name
  let place := Word.low32 (l.positionOf (.ofInt rva + code.address))
  let waiting : UnresolvedSymbol := ⟨none, name, place, type = 20⟩
  if symbol.isExternal then return some waiting
  let _ ← sectionNumbered l.sections symbol.sectionNumber
  checkPlace l (← readThe ByteArray) waiting
  return none

def mainSymbol : String := "_main"

def Object.read : FileReader Object := do
  let header ← Header.read
  let sections := layOut 0 (← FileReader.times header.sectionCount Section.read)
  match sections.reverse.find? (fun s => s.name == ".text" && !s.isVariant) with
  | none => throw .unrecognized
  | some code =>
    let file ← readThe ByteArray
    let limit := file.size + 1
    let strings ←
      if header.symbolCount > 0 then do
        let start := header.symbols + wrap32 (header.symbolCount * 18)
        FileReader.seek start
        let size ← FileReader.int32
        readStrings start (start + size) limit
      else pure []
    if header.symbolCount < 0 then throw .negativeSize
    let symbols ←
      if header.symbolCount > 0 then do
        FileReader.seek header.symbols
        FileReader.times header.symbolCount.toNat (do
          let s ← Symbol.read strings
          if s.name = mainSymbol then
            let _ ← sectionNumbered sections s.sectionNumber
          return s)
      else pure []
    let start ← (symbols.filter (·.name == mainSymbol)).foldlM (fun _ s => do
      return s.value + (← sectionNumbered sections s.sectionNumber).address) (-1 : Int64)
    let layout : Layout := { isObject := true, base := 0x1000, entry := 0x1000 + start, sections }
    let unresolved ←
      if code.relocationCount > 0 then do
        FileReader.seek code.relocations
        pure ((← FileReader.times code.relocationCount (readRelocation layout code symbols)).filterMap id)
      else pure []
    return ⟨layout, symbols, unresolved⟩

def Object.ofFile (file : ByteArray) : Faulty Object := do
  let (o, _) ← (Object.read.run file).run 0
  return o

def Object.exports (o : Object) : Faulty (List ExportedSymbol) := go 0 o.symbols
where
  /-- The exports from some entries on, of which the first `skip` belong to an earlier one. -/
  go : Nat → List Symbol → Faulty (List ExportedSymbol)
    | _, [] => .ok []
    | skip + 1, _ :: ss => go skip ss
    | 0, s :: ss => do
      if s.isExternal ∧ s.sectionNumber > 0 then
        let name ← plainName s.name
        let sec ← sectionNumbered o.layout.sections s.sectionNumber
        return ⟨name, o.layout.addressOf (sec.position + s.value)⟩ :: (← go s.auxiliaries ss)
      else go s.auxiliaries ss

end FlowRecovery.Coff
