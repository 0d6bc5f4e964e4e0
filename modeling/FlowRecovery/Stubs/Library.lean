import FlowRecovery.Image.Coff.Executable
import FlowRecovery.Spec.Architecture
import FlowRecovery.Stubs.Exports

/-!
# Stubs for procedures outside the program

A procedure of a system library has no code in the program. A stub at an address of its own stands
for it: statements that make the registers unknown that callers have to save, take the arguments
from the stack and return. What a procedure does beyond that is known of a few only.
-/

namespace FlowRecovery

def stubBase : Int64 := 0xFF000000

def isStubAddress (a : Int64) : Bool := a ≥ stubBase

def epilogueAddress : Int64 := 0xfee70000

def placeEffects (address : Int64) (effects : List Effect) : List Stmt :=
  effects.zipIdx.map (fun (e, n) =>
    { Stmt.ofEffect e with
      label := some ⟨address, n⟩
      next := if n + 1 = effects.length then none else some ⟨address, n + 1⟩ })

/-- Systems whose libraries are known. -/
inductive StubSystem where
  | windows | linux

/-- The stubs that exist. -/
structure StubLibrary where
  system : StubSystem
  count : Nat := 0
  /-- The addresses by library and name; a procedure that was looked up by a name that is not known
  has none. -/
  active : List ((String × Option String) × Int64) := []

namespace StubLibrary

def symbol? (l : StubLibrary) (a : Int64) : Option String := (l.active.find? (·.2 == a)).bind (·.1.2)

/-! ### Parts of stubs -/

variable (arch : Architecture)

def moveStack (bytes : Int) : Faulty Effect := do
  let sp := arch.special.stackPointer
  return .assign sp (← Expr.plusConstant (.var sp) (.ofInt bytes))

def push (value : Expr) : Faulty (List Effect) := do
  let sp := arch.special.stackPointer
  return [← moveStack arch (-((← value.width).tdiv 8)), .store (← Expr.memory 32 (.var sp) none 0) value]

def clear (name : String) : Faulty Effect := do
  match arch.vars.find? name with
  | some v => return .assign v (← Expr.unspecified 32)
  | none => throw .absent

def finish (returns : Bool) (bytes : Int) : Faulty (List Effect) := do
  let s := arch.special
  let top ← Expr.memory s.stackPointer.width (.var s.stackPointer) none 0
  let fetch := if returns then [Effect.assign s.returnAddress top] else []
  let last := if returns then .goto (.always (.var s.returnAddress) .ret) else .halt
  return fetch ++ [← moveStack arch bytes, last]

def argument (distance : Int64) : Faulty Expr := do
  Expr.memory 32 (← Expr.plusConstant (.var arch.special.stackPointer) distance) none 0

/-! ### Linux -/

def linuxEffects (name : String) : Faulty (List Effect) := do
  if name == "__libc_start_main" then
    let unknown ← push arch (← Expr.unspecified 32)
    let leave ← push arch (.number epilogueAddress 32)
    return unknown ++ unknown ++ unknown ++ leave ++ [.goto (.always (← argument arch 20) .call)]
  let returns := name != "exit" && name != "__stack_chk_fail"
  let ending ← finish arch returns 4
  if name == "printf" then
    let place ← Expr.plusConstant (.var arch.special.stackPointer) 4
    return .debug "Call to printf, format @ %esp =" (← Expr.named "dbgPrintf" [place]) :: ending
  let clobber ← ["ecx", "edx"].mapM (clear arch)
  if name == "malloc" then
    match arch.vars.find? "eax" with
    | none => throw .absent
    | some eax =>
      let choice := Expr.conditional (← Expr.unspecified 1) (.var eax) (.number 0 32)
      return [.alloc (.var eax) none, .assign eax choice] ++ clobber ++ ending
  return (← clear arch "eax") :: clobber ++ ending

/-! ### Windows -/

def ownLibrary : String := "jakstab.dll"

def requestCodes : List (String × Int) :=
  [("DRIVER_INIT", -3), ("DRIVER_STARTIO", -2), ("DRIVER_UNLOAD", -1)] ++
  ["CREATE", "CREATE_NAMED_PIPE", "CLOSE", "READ", "WRITE", "QUERY_INFORMATION", "SET_INFORMATION", "QUERY_EA",
   "SET_EA", "FLUSH_BUFFERS", "QUERY_VOLUME_INFORMATION", "SET_VOLUME_INFORMATION", "DIRECTORY_CONTROL",
   "FILE_SYSTEM_CONTROL", "DEVICE_CONTROL", "INTERNAL_DEVICE_CONTROL", "SHUTDOWN", "LOCK_CONTROL", "CLEANUP",
   "CREATE_MAILSLOT", "QUERY_SECURITY", "SET_SECURITY", "POWER", "SYSTEM_CONTROL", "DEVICE_CHANGE", "QUERY_QUOTA",
   "SET_QUOTA", "PNP"].zipIdx.map (fun (name, n) => ("IRP_MJ_" ++ name, (n : Int)))

def showRequests : Faulty (List Effect) := do
  let driver : Var := ⟨arch.vars.vars.size, "driverObject", 32⟩
  let shown ← requestCodes.mapM (fun (name, code) => do
    let distance := 0x38 + 4 * code
    let place ← Expr.memory 32 (← Expr.plusConstant (.var driver) (.ofInt distance)) none 0
    return Effect.debug ("Driver registers " ++ name ++ "(DriverObject[0x" ++ Text.hex distance.toNat ++ "])") place)
  return .assign driver (← argument arch 4) :: shown

def lookupEffect (mode : Int) : Faulty (List Effect) := do
  if mode = 0 then
    match arch.vars.find? "eax" with
    | none => throw .absent
    | some eax => return [.assign eax (← Expr.named "getProcAddress" [← argument arch 4, ← argument arch 8])]
  else if mode = 1 then throw (.violated none)
  else if mode = 2 then return [← clear arch "eax"]
  else return []

def windowsEffects (mode : Int) (library : String) (name : Option String) :
    Faulty (Option (List Effect)) := do
  let isSystem := library.toUpper.startsWith "KERNEL32"
  if name.isNone && (library == ownLibrary || isSystem) then throw .absent
  if library == ownLibrary then
    if name == some "_jakstab_print_driver_object@4" then
      return some ((← showRequests arch) ++ (← finish arch true 8))
    return none
  let stub := name.bind (Stubs.find? library)
  match stub with
  | some { kind := .data, .. } => return none
  | _ =>
    let bytes := match stub with
      | some s => if s.kind = .fastProcedure then max 0 (s.argumentBytes - 8) else s.argumentBytes
      | none => 0
    let returns := (stub.map Stubs.Stub.returns).getD true
    let first ←
      if isSystem && name == some "GetProcAddress" then lookupEffect arch mode
      else pure [← clear arch "eax"]
    return some (first ++ (← ["ecx", "edx"].mapM (clear arch)) ++ (← finish arch returns (bytes + 4)))

def pseudoImport (name : String) : Faulty (String × String) := do
  let mark := "jakstab$link$"
  if name.startsWith mark then
    let rest := name.toList.drop mark.length
    let library := rest.takeWhile (· != '$')
    if library.length = rest.length then throw .outsideText
    return (String.ofList (library.map (fun c => if c == '_' then '.' else c)),
      String.ofList (rest.drop (library.length + 1)))
  return (ownLibrary, name)

/-! ### Addresses -/

def keyOf (l : StubLibrary) (library name : Option String) : Faulty (Option (String × Option String)) :=
  match l.system, library, name with
  | .linux, none, _ => .ok none
  | .linux, some _, some name => .ok (some ("", some name))
  | .windows, none, some name => (pseudoImport name).map (fun (library, name) => some (library, some name))
  | .windows, some library, name => .ok (some (Coff.lowerCase library, name))
  | _, _, none => .error .absent

def effects (mode : Int) (l : StubLibrary) (key : String × Option String) :
    Faulty (Option (List Effect)) :=
  match l.system, key.2 with
  | .linux, some name => (linuxEffects arch name).map some
  | .linux, none => .error .absent
  | .windows, name => windowsEffects arch mode key.1 name

/-- The address of a procedure, and the statements of its stub if it is new. A new stub takes an
address even if it cannot be made. -/
def resolve (mode : Int) (l : StubLibrary) (library name : Option String) :
    Faulty (Option Int64 × List Stmt) × StubLibrary :=
  match l.keyOf library name with
  | .error f => (.error f, l)
  | .ok none => (.ok (none, []), l)
  | .ok (some key) =>
    match l.active.lookup key with
    | some a => (.ok (some a, []), l)
    | none =>
      let count := l.count + 1
      let address := stubBase + .ofNat (16 * count)
      match l.effects arch mode key with
      | .error f => (.error f, { l with count })
      | .ok body =>
        (.ok (some address, placeEffects address (body.getD [])),
         { l with count, active := l.active ++ [(key, address)] })

end StubLibrary

end FlowRecovery
