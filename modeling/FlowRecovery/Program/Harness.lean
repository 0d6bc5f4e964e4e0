import FlowRecovery.Program.Basic

/-!
# Statements around the run of a program

Before the first instruction the stack is there and the address to return to is on it; after the
last one the program stops. With nothing known about the entries of a program, everything that looks
like a procedure is called.
-/

namespace FlowRecovery.Program

variable (arch : Architecture)

def clearDirection : Faulty Effect :=
  match arch.vars.find? "DF" with
  | some v => .ok (.assign v .ff)
  | none => .error .absent

def callOf (target : Int64) : Effect := .goto (.always (.number target 32) .call)

def allocSegment (register name : String) : Faulty Effect :=
  match arch.vars.find? register with
  | some v => .ok (.alloc (.var v) (some name))
  | none => .error .absent

def singlePrologue (system : TargetSystem) (start : Int64) : Faulty (List Effect) := do
  let segments ← match system with
    | .windows => pure [← allocSegment arch "fs" "FS"]
    | .linux => pure [← allocSegment arch "gs" "GS"]
    | .unknown => pure []
  let leave ← StubLibrary.push arch (.number epilogueAddress 32)
  return [← clearDirection arch, .alloc (.var arch.special.stackPointer) (some "Stack")] ++ segments ++ leave ++
    [callOf start]

def startAddress : ProgramM Int64 := do
  match (← get).start with
  | some l => return l.address
  | none => throw .absent

def putEffects (address : Int64) (effects : List Effect) : ProgramM Unit :=
  modify (putAll (placeEffects address effects))

def installSingle : ProgramM Unit := do
  modify (fun p => { p with harness := some .single })
  let p ← get
  putEffects prologueAddress (← singlePrologue p.arch p.system (← startAddress))
  modify (fun p => { p with start := some ⟨prologueAddress, 0⟩ })
  putEffects epilogueAddress [.halt]

/-! ### What looks like a procedure -/

def procedureHeads : List (List UInt8) := [[0x8b, 0xff, 0x55, 0x8b, 0xec], [0x55, 0x8b, 0xec]]

/-- Do bytes stand at a position? They must not reach beyond the end unless an earlier byte differs.
-/
def standsAt (file : ByteArray) : List UInt8 → Nat → Faulty Bool
  | [], _ => .ok true
  | b :: bs, pos => do if (← FileReader.byteAt file pos) = b then standsAt file bs (pos + 1) else return false

def headAt (file : ByteArray) (pos : Nat) : List (List UInt8) → Faulty (Option Nat)
  | [] => .ok none
  | h :: hs => do if ← standsAt file h pos then return some h.length else headAt file pos hs

/-- The positions from `pos` on at which procedures start; after a head, the next byte is not looked
at. -/
def headsFrom (file : ByteArray) : Nat → Nat → Faulty (List Nat)
  | 0, _ => .ok []
  | limit + 1, pos =>
    if pos < file.size then do
      match ← headAt file pos procedureHeads with
      | some n => return pos :: (← headsFrom file limit (pos + n + 1))
      | none => headsFrom file limit (pos + 1)
    else .ok []

def procedureEntries (image : Image) : Faulty (List (Option Int64)) := do
  if !image.isCoff then return []
  match image.bytes with
  | none => throw .absent
  | some file => (← headsFrom file file.size 0).mapM (fun pos => image.addressOf (.ofNat pos))

def pushNumber (n : Int64) : Faulty (List Effect) := do
  let sp := arch.special.stackPointer
  return [← StubLibrary.moveStack arch (-4), .store (← Expr.memory 32 (.var sp) none 0) (.number n 32)]

def clearRegisters : Faulty (List Effect) :=
  (arch.vars.toList.filter (fun v => arch.registers.contains v && v != arch.special.stackPointer)).mapM
    (fun v => return .assign v (← Expr.unspecified v.width))

/-- Calls procedures one after the other, at addresses from the given one on; the last call returns
to the start. -/
def callAll (arch : Architecture) : Int64 → List (Option Int64) → ProgramM Int64
  | address, [] => return address - 1
  | _, none :: _ => throw .absent
  | address, some entry :: rest => do
    let after := if rest.isEmpty then prologueAddress else address + 1
    putEffects address ((← clearRegisters arch) ++ (← pushNumber arch after) ++ [callOf entry])
    callAll arch (address + 1) rest

def installEveryProcedure : ProgramM Unit := do
  let p ← get
  let entries ← match p.mainImage? with
    | some image => procedureEntries image
    | none => pure []
  let arch := p.arch
  modify (fun p => { p with harness := some (.everyProcedure prologueAddress) })
  putEffects prologueAddress
    ([← clearDirection arch] ++ (← pushNumber arch (prologueAddress + 1)) ++ [callOf (← startAddress)])
  modify (fun p => { p with start := some ⟨prologueAddress, 0⟩ })
  let last ← callAll arch (prologueAddress + 1) entries
  modify (fun p => { p with harness := some (.everyProcedure last) })
  putEffects epilogueAddress [.halt]

end FlowRecovery.Program
