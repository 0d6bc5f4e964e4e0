import FlowRecovery.Stubs.Windows.Desktop
import FlowRecovery.Stubs.Windows.Drivers
import FlowRecovery.Stubs.Windows.Languages
import FlowRecovery.Stubs.Windows.Network
import FlowRecovery.Stubs.Windows.System

/-!
# What system libraries export

The exported names of the libraries of a system, with what callers have to know about them. Names of
procedures that return and take nothing from the stack are left out, because there is nothing to
know. A library is a text of names, each followed by half the number of bytes that the procedure
takes from the stack, as a digit of base 36, or by `-` if it is no procedure. In front of a name,
`@` says that some arguments are in registers and `!` that the procedure does not return. Names with
a common stem stand in brackets after it, and those of procedures that exist for two character sets,
or for callers inside and outside the kernel, are one name: `Draw(2 Text*4 To(Do6 Be-))` stands for
`Draw`, `DrawTextA`, `DrawTextW`, `DrawToDo` and `DrawToBe`, and `~Draw2` for `NtDraw` and `ZwDraw`.
For the words that are most frequent in names, there are signs (`words`).
-/

namespace FlowRecovery.Stubs

/-- What a name stands for. -/
inductive ExportKind where
  | procedure
  | fastProcedure
  | data
  deriving DecidableEq

/-- An exported name. -/
structure Stub where
  kind : ExportKind
  name : String
  argumentBytes : Int
  returns : Bool

/-- The names of a text, where `stems` are those of the brackets around, innermost first, and
`ending` is what was read after the first of them. -/
def names (stems : List (List Char)) (ending : List Char) : List Char → List (List Char)
  | [] => found
  | '(' :: cs => names ((stem ++ ending) :: stems) [] cs
  | ')' :: cs => found ++ names stems.tail [] cs
  | c :: cs => if c == ' ' || c == '\n' then found ++ names stems [] cs else names stems (ending ++ [c]) cs
where
  stem := stems.headD []
  found := if ending = [] then [] else [stem ++ ending]

def variants : List Char → List (List Char)
  | '~' :: cs => ['N' :: 't' :: cs, 'Z' :: 'w' :: cs]
  | cs => if cs.getLast? = some '*' then [cs.dropLast ++ ['A'], cs.dropLast ++ ['W']] else [cs]

def bytesTaken (size : Char) : Int :=
  2 * if size.isDigit then size.toNat - '0'.toNat else 10 + (size.toNat - 'a'.toNat)

def Stub.ofName (size : Char) (cs : List Char) : Stub :=
  let marks := cs.takeWhile (fun c => c == '@' || c == '!')
  { kind := if marks.contains '@' then .fastProcedure else if size == '-' then .data else .procedure
    name := String.ofList (cs.drop marks.length)
    argumentBytes := if size == '-' then 0 else bytesTaken size
    returns := !marks.contains '!' }

/-- The words that a text has signs for, each after its sign. -/
def words : String := "
#Object %Information &String +Security ,File .Thread /Buffer :System ;Process <Info =Initialize >Event [Name ]Handle
^Size |Free αDescriptor βResource γCreate δWindow εUnmarshall ζUnicode ηDirectory θAccess ιMemory κSection λAllocate
μService νDevice ξMarshall οAuditAlarm πRegister ρContext σEnvironment τPrinter υStatus φMessage χClient ψQuery ωServer
ΓNotification ΔConsole ΘChange ΛDefault ΞDisplay ΠDelete ΣValue ΦFrom ΨRelease ΩTime
"

def signs : List (Char × List Char) := (names [] [] words.toList).map fun cs => (cs.headD ' ', cs.tail)

def Stub.ofText (text : String) : List Stub :=
  let spelled := text.toList.flatMap fun c => (signs.lookup c).getD [c]
  (names [] [] spelled).flatMap (fun cs => (variants cs.dropLast).map (ofName (cs.getLast?.getD '-')))

def libraries : List (String × List String) := [
  ("advapi32", [Windows.advapi32]), ("comctl32", [Windows.comctl32]), ("comdlg32", [Windows.comdlg32]),
  ("csrsrv", [Windows.csrsrv]), ("gdi32", [Windows.gdi32]), ("hal", [Windows.hal]), ("imagehlp", [Windows.imagehlp]),
  ("kernel32", [Windows.kernel32]), ("msvcp80", [Windows.msvcp80]), ("msvcr80", [Windows.runtime, Windows.msvcr80]),
  ("msvcrt", [Windows.runtime]), ("netapi32", [Windows.netapi32]),
  ("ntdll", [Windows.native, Windows.ntdll]), ("ntoskrnl", [Windows.native, Windows.ntoskrnl]),
  ("ole32", [Windows.ole32]), ("oledlg", [Windows.oledlg]), ("rpcrt4", [Windows.rpcrt4]),
  ("scsiport", [Windows.scsiport]), ("shell32", [Windows.shell32]), ("shlwapi", [Windows.shlwapi]),
  ("stream", [Windows.stream]), ("user32", [Windows.user32]), ("winspool", [Windows.winspool]),
  ("wmilib", [Windows.wmilib]), ("ws2_32", [Windows.sockets, Windows.ws232]),
  ("wsock32", [Windows.sockets, Windows.wsock32])]

def baseName (library : String) : String :=
  let cs := library.toList
  let ending := cs.reverse.takeWhile (· != '.')
  if ending.length + 1 < cs.length then String.ofList (cs.take (cs.length - ending.length - 1)) else library

def find? (library name : String) : Option Stub := do
  let texts ← libraries.lookup (baseName library)
  (texts.flatMap Stub.ofText).find? (·.name == name)

end FlowRecovery.Stubs
