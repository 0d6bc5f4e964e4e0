/-!
# Libraries of the system

What libraries for processes, memory and files, the registry, and what the system itself is built on
export. The texts are those that `Stub.ofText` reads.
-/

namespace FlowRecovery.Stubs.Windows

def advapi32 : String := "
Abort:Shutdown*2 θCheck(g Andο*m ByType(m Andο*w ResultList(m Andο*w))) Add(θ(Allowed(Ace(8 Exa)
#Acee) Denied(Ace(8 Exa) #Acee)) Acea Auditθ(Ace(c Exe) #Acei)) AdjustToken(Groupsc Privilegesc)
λ(And=Sidm LocallyUniqueId2) Are(AllθesGranted4 AnyθesGranted4) Backup>Log*4 Build(ExplicitθWith[*a
Impersonate(ExplicitθWith[*c Trustee*4) +α*i TrusteeWith([*4 Sid*4)) CancelOverlappedθ2 ΘμConfig(*m
2*6) Clear>Log*4 Close(>Log2 Raw2 μ]2) Controlμ6 Convert(θTo+α*a +αToθ(*e [d*e)
ToAutoInheritPrivate#+c) CopySid6 γ(Private#+(c Exg) ;AsUser*m RestrictedTokeni μ*q)
Crypt(Acquireρ*a ρAddRef6 γHasha Decryptc DeriveKeya Destroy(Hash2 Key2) Duplicate(Hash8 Key8)
Encrypte Enum(ProviderTypes*c Providers*c) ExportKeyc Gen(Key8 Random6) Get(ΛProvider*a HashParama
KeyParama ProvParama UserKey6) Hash(Data8 SessionKey6) ImportKeyc Ψρ4 Set(HashParam8 KeyParam8
ProvParam8 Provider(*4 Ex*8)) SignHash*c VerifySignature*c) Decrypt,*4 Π(Ace4 μ2) Deregister>Source2
DestroyPrivate#+2 DuplicateToken(6 Exc) Elf(Backup>Log,*4 ΘNotify4 Clear>Log,*4 Close>Log2
Deregister>Source2 NumberOfRecords4 OldestRecord4 Open(Backup>Log*6 >Log*6) Read>Log*e π>Source*6
Report>*o) Encrypt,*2 Enum(Dependentμs*c μGroupWi μsυ*g) Equal(PrefixSid4 Sid4) FindFirst|Ace4 |Sid2
Get(θPermissionsFor#*i Ace6 Acl%8 AuditedPermissionsΦAcl*8 CurrentHwProfile*2 EffectiveRightsΦAcl*6
ExplicitEntriesΦAcl*6 ,+*a Kernel#+a LengthSid2 MultipleTrustee(*2 Operation*2) [d+<(*g Ex*i)
NumberOf>LogRecords4 Oldest>LogRecord4 OverlappedθResults8 Private#+a +(α(Control6 Dacl8 Group6
Length2 Owner6 Sacl8) <(g Ex*i)) μ(Ξ[*8 Key[*8) Sid(IdentifierAuthority2 LengthRequired2
SubAuthority(4 Count2)) Token%a Trustee([*2 Type*2) User[*4) I_ScSetμBits*a
Impersonate(LoggedOnUser2 [dPipeχ2 Self2) =(Acl6 +α4 Sid6) Initiate:Shutdown*a Is(Textζ6
TokenRestricted2 Valid(Acl2 +α2 Sid2)) LockμDatabase2 LogonUser*c Lookup(Account([*e Sid*e)
Privilege(Ξ[*a [*8 Σ*6) +αParts*e) Lsa(Add(AccountRights8 PrivilegesToAccount4) ClearAuditLog2
Close2 γ(Account8 Secret8 TrustedDomain(8 Exa)) Π(2 TrustedDomain4) Enumerate(AccountRights8
Accounts(a WithUserRight8) Privileges(a OfAccount4) TrustedDomains(a Exc)) |ι2 Get(QuotasForAccount4
:θAccount4 User[4) ICLookup([se Sidse) IGetTrustedDomainAuth<Blobs8 ISetTrustedDomainAuth<Blobs8
Lookup([sa Privilege(Ξ[8 [6 Σ6) Sidsa) NtυToWinError2 Open(Account8 Policy8 Secret8 TrustedDomain8)
ψ(Domain%Policy6 <TrustedDomain6 %Policy6 Local%Policy6 Secreta +#6 TrustedDomain<(8 By[8))
Remove(AccountRightsa PrivilegesΦAccount6) RetrievePrivateData6 Set(Domain%Policy6 %(Policy6
TrustedDomain6) Local%Policy6 QuotasForAccount4 Secret6 +#6 :θAccount4 TrustedDomain(<By[8 %8))
StorePrivateData6) Make(AbsoluteSDm SelfRelativeSD6) MapGenericMask4 Notify(BootConfigυ2 Θ>Log4)
#(Closeο*6 Πο*6 Openο*o Privilegeο*c) Open(Backup>Log*4 >Log*4 ;Token6 Raw*6 SCManager*6 μ*6
.Token8) PrivilegeCheck6 Privilegedμο*a ψ(RecoveryAgents*6 μ(Config(*8 2*a) Lockυ*8 #+a υ4)
δs31,sMigration2) Read(>Log*e Raw6) Reg(CloseKey2 ConnectRegistry*6 γKey(*6 Ex*i) Π(Key*4 Σ*4)
Enum(Key(*8 Ex*g) Σ*g) FlushKey2 GetKey+8 LoadKey*6 NotifyΘKeyΣa OpenKey(*6 Ex*a) OverridePredefKey4
ψ(<Key*o MultipleΣs*a Σ(*8 Ex*c)) ReplaceKey*8 RestoreKey*6 SaveKey*6 Set(Key+6 Σ(*a Ex*c))
UnLoadKey*4) π(>Source*4 μCtrl]r*4) Report>*i Set(Acl%8 EntriesIn(θList*c Acl*8 AuditList*c) ,+*6
Kernel#+6 [d+<(*e Ex*i) Private#+(a Exc) +(α(Control6 Dacl8 Group6 Owner6 Sacl8) <(e Ex*i)) μ(Bits8
#+6 υ4) .Token4 Token%8) Startμ(*6 CtrlDispatcher*2) Synchronizeδs31,sAndδsNTRegistry8
:Function0(0(16 26 34 46 56 64 74 86 96) 1(06 16 26 36 46 56 66 76 86 96) 2(06 16 26 36 46 56 66 76
84 94) 3(04 14 24 34)) TrusteeθTo#*c UnlockμDatabase2 WriteRaw6
"

def csrsrv : String := "
Csr(AddStaticω.6 CallωΦω4 γ(;c Remote.4 .8 Waitc) Debug;(6 Stop4) Dereference(;2 .2 Wait2)
Destroy(;4 .2) Execω.4 Get;Luid4 Impersonateχ2 Lock(;ByχId4 .ByχId4) MoveSatisfiedWait4 NotifyWait5
Reference.2 ωInitialization4 Set(BackgroundPriority2 CallingSpooler2 ForegroundPriority2)
Shutdown;es4 UnhandledExceptionFilter2 Unlock(;2 .2) Validateφ(/8 &4))
"

def imagehlp : String := "
BindImage(6 Exa) CheckSumMapped,8 CopyPdb6 EnumerateLoadedModules6 Find(Debug<,6 ExecutableImage6)
Get(Image(Config%4 UnusedHeaderBytes4) ΩstampForLoadedLibrary2) Image(AddCertificate6 ηEntryToData8
EnumerateCertificatesa Get(Certificate(Data8 Header6) DigestStream8) Load4 NtHeader2
RemoveCertificate4 RvaTo(κ6 Va8) Unload2) ImagehlpApiVersionEx2 MakeSureηPathExists2 Map(AndLoada
Debug%8 ,AndCheckSum*6) MarkImageAsRunΦSwap4 ReBaseImagem Remove(PrivateCvSymbolic(6 Ex8)
Relocations2) SearchTreeFor,6 SetImageConfig%4 SplitSymbols8 StackWalki Sym(Cleanup2
Enumerate(Modules6 Symbols8) FunctionTableθ4 Get(Line(Φ(Addr8 [c) Next4 Prev4) Module(Base4 <6)
SearchPath6 Sym(Φ(Addr8 [6) Next4 Prev4)) =6 LoadModulec Match,[8 πCallback6 Set(Options2
SearchPath4) UnD[6 UnloadModule4) Touch,Ωs4 UnDecorateSymbol[8 UnMapAndLoad2 UnmapDebug%2
UpdateDebug<,(8 Exa)
"

def kernel32 : String := "
!Exit;2 Add(Atom*2 ΔAlias*6) Assign;ToJob#4 Backup(Reade Seekc Writee) Beep4 BeginUpdateβ*4
BuildComm(DCB*4 DCBAndΩouts*6) Call[dPipe*e Cancel(Io2 WaitableΩr2) ClearComm(Break2 Error6)
Close(Δ]2 ]2) CmdBatΓ2 CommConfigDialog*6 Compare(,Ω4 &*c) Connect[dPipe4 ΔMenuControl6
ContinueDebug>6 Convert(ΛLocale2 .ToFiber2) Copy,(*6 Ex*c) γ(ΔScreen/a η(*4 Ex*6) >*8 Fiber6 ,(*e
Mapping*c) HardLink*6 IoCompletionPort8 Job#*4 Mailslot*8 Mutex*6 [dPipe*g Pipe8 ;*k Remote.e
Semaphore*8 TapePartition8 .c Toolhelp32Snapshot4 Virtual/6 WaitableΩr*6) DebugActive;2
Decode(Pointer2 :Pointer2) DefineDosν*6 DelayLoadFailureHook4 Π(Atom2 Criticalκ2 Fiber2 ,*2)
νIoControlg Disable.LibraryCalls2 Disconnect[dPipe2 DosDateΩTo,Ω6 Duplicate(Δ]8 ]e) Encode(Pointer2
:Pointer2) EndUpdateβ*4 EnterCriticalκ2 Enum(Calendar<(*8 Ex*8) DateFormats(*6 Ex*6) β(Languages*a
[s*8 Types*6) :(CodePages*4 Locales*4) ΩFormats*6) EraseTape6 EscapeCommFunction4 Exit(.2 VDM4)
Expandσ&s*6 ExpungeΔCommandHistory*2 ExtendVirtual/4 Fatal(AppExit*4 Exit2) ,ΩTo(DosDateΩ6 Local,Ω4
:Ω4) FillΔOutput(Attributea Character*a) Find(Atom*2 Close(2 ΘΓ2) First(ΘΓ*6 ,(*4 Ex*c)) Next(ΘΓ2
,*4) β(*6 Ex*8)) Fls(Alloc2 Callback2 |2 GetΣ2 SetΣ4) Flush(ΔInput/2 ,/s2 InstructionCache6
ViewOf,4) Fold&*a Formatφ*e |(σ&s*2 Library(2 AndExit.4) β2 Virtual/2) GenerateΔCtrl>4 Get(Atom[*6
BinaryType(4 *4) CP<(4 Ex*6) Comm(Config6 Mask4 Modemυ4 Properties4 State4 Ωouts4) Compressed,^*4
Computer[*4 Δ(Alias(*8 Exes*4) Aliases(*6 Length*2) CommandHistory(*6 Length*2) Cursor<4 ΞMode2
Font(<8 ^4) HardwareState6 InputExe[*4 KeyboardLayout[*2 Mode4 Screen/<4 Title*4) CurrencyFormat*c
Current(ΔFont6 η*4) DateFormat*c ΛCommConfig*6 νPowerState2 Disk|Space(*a Ex*8) DriveType*2
σVariable*6 ExitCode(;4 .4) ,(Attributes(*2 Ex*6) %By]4 ^4 Ω8 Type2) FullPath[*8 ]%4 LargestΔδ^2
LocalΩ2 Locale<*8 LogicalDrive&s*4 LongPath[*6 Mailslot<a Module(,[*6 ]*2) [dPipe(]State*e <a)
NextVDMCommand2 Number(Format*c OfΔ(Input>s4 MouseButtons2)) OverlappedResult8 PriorityClass2
PrivateProfile(Int*8 κ(*8 [s*6) &*c Struct*a) ProcAddress4 ;(AffinityMask6 Heaps4 PriorityBoost4
ShutdownParameters4 Ωsa Version2 WorkingSet^6) Profile(Int*6 κ*6 &*a) QueuedCompletionυa
ShortPath[*6 Startup<*2 Std]2 &Type(Aa Ex*a W8) :(η*4 <2 Powerυ2 Ω(2 Adjustment6 As,Ω2))
Tape(Parameters8 Positiona υ2) Temp(,[*8 Path*4) .(ρ4 Priority(2 Boost4) SelectorEntry6 Ωsa)
Ω(Format*c Zone%2) VDMCurrentDirectories4 VersionEx*2 Volume%*g δsη*4) Global(AddAtom*2 Alloc4
Compact2 ΠAtom2 FindAtom*2 Fix2 Flags2 |2 GetAtom[*6 ]2 Lock2 ιυ(2 Vlm2) ReAlloc6 ^2 UnWire2 Unfix2
Unlock2 Wire2) Heap(32(First6 List(First4 Next4) Next2) Alloc6 Compact4 γ(6 TagsW8) Destroy2 Extend8
|6 Lock2 ψTagWa ReAlloc8 ^6 Summary6 Unlock2 Usagea Validate6 Walk4) InitAtomTable2 =Criticalκ(2
AndSpinCount4) Interlocked(CompareExchange6 Decrement2 Exchange(4 Add4) Increment2)
InvalidateΔDIBits4 Is(Bad(CodePtr2 Huge(ReadPtr4 WritePtr4) ReadPtr4 &Ptr*4 WritePtr4)
DBCSLeadByte(2 Ex4) ;orFeaturePresent2 Valid(CodePage2 Locale4)) LCMap&*c LeaveCriticalκ2
Load(Library(*2 Ex*6) Module4 β4) Local(Alloc4 Compact2 ,ΩTo,Ω4 Flags2 |2 ]2 Lock2 ReAlloc6 Shrink4
^2 Unlock2) Lock(,(a Exc) β2) MapViewOf,(a Exc Vlme) Module32(First(4 W4) Next(4 W4)) Move,(*4 Ex*6
WithProgress*a) MulDiv6 MultiByteToWideCharc Open(ΔW8 >*6 ,(6 Mapping*6) Job#*6 Mutex*6 ;6
Semaphore*6 WaitableΩr*6) OutputDebug&*2 Peek(ΔInput*8 [dPipec) PostQueuedCompletionυ8 PrepareTape6
;32(First(4 W4) Next(4 W4)) Pulse>2 PurgeComm4 ψ(Dosν*6 %Job#a Performance(Counter2 Frequency2)
Win31Ini,sMappedToRegistry8) QueueUserAPC6 RaiseException8 Read(Δ(*a Input(*8 Ex*a) Output(*a
Attributea Character*a)) ηΘsWg ,(a Exa Scattera Vlma) ;ι(a Vlma)) π(ΔVDMm WaitForInputIdle2
Wow(Base]rs2 Exec2)) Ψ(Mutex2 Semaphore6) Removeη*2 RequestWakeupLatency2 Reset>2 Resume.2
Rtl(Fillι6 Moveι6 Unwind8 Zeroι4) ScrollΔScreen/*a SearchPath*c Set(Comm(Break2 Config6 Mask4 State4
Ωouts4) Computer[*2 Δ(ActiveScreen/2 CP2 CommandHistoryMode2 Ctrl]r4 Cursor(4 <4 Position4) ΞMode6
Font4 HardwareState6 Icon2 InputExe[*2 KeyShortcuts8 Maximumδ^4 MenuClose2 Mode4 NumberOfCommands*4
OutputCP2 Palette6 Screen/^4 TextAttribute4 Title*2 δ<6) CriticalκSpinCount4 Currentη*2
ΛCommConfig*6 EndOf,2 σVariable*4 ErrorMode2 >2 ,(Attributes*4 Pointer8 Ω8) ](Count2 %6) %Job#8
LastError2 LocalΩ2 Locale<*6 Mailslot<4 [dPipe]State8 PriorityClass4 ;(AffinityMask4 PriorityBoost4
ShutdownParameters4 WorkingSet^6) Std]4 :(PowerState4 Ω(2 Adjustment4)) Tape(Parameters6 Positionc)
.(AffinityMask4 ρ4 ExecutionState2 Ideal;or4 Locale2 Priority(4 Boost4)) ΩZone%2
UnhandledExceptionFilter2 VDMCurrentDirectories4 VolumeLabel*4 WaitableΩrc) SetupComm6 ShowΔCursor4
Signal#AndWait8 ^ofβ4 Sleep(2 Ex4) Suspend.2 SwitchToFiber2 :ΩTo(,Ω4 TzSpecificLocalΩ6)
Terminate(Job#4 ;4 .4) .32(First4 Next4) Tls(|2 GetΣ2 SetΣ4) Toolhelp32Read;ιa Transact[dPipee
TransmitCommChar4 TrimVirtual/2 TryEnterCriticalκ2 UnhandledExceptionFilter2 Unlock,(a Exa)
UnmapViewOf,(2 Vlm2) Updateβ*c VDMΔOperation4 VDMOperationStarted2 VerLanguage[*6 VerifyΔIo]2
Virtual(Alloc(8 Exa Vlmc) /Exception]r6 |(6 Ex8 Vlma) Lock4 Protect(8 Exa Vlmc) ψ(6 Ex8 Vlm8)
Unlock4) Wait(Comm>6 For(Debug>4 Multiple#s(8 Exa) Single#(4 Ex6)) [dPipe*4) WideCharToMultiByteg
WinExec4 Write(Δ(*a Input(*8 VDM*8) Output(*a Attributea Character*a)) ,(a Exa Gathera Vlma)
PrivateProfile(κ*6 &*8 Struct*a) ;ι(a Vlma) Profile(κ*4 &*6) Tapemark8) _(hread6 hwrite6 lclose2
lcreat4 llseek6 lopen4 lread6 lwrite6) lstrcat(4 *4) lstrcmp(4 *4) lstrcmpi(4 *4) lstrcpy(4 *4)
lstrcpyn(6 *6) lstrlen(2 *2)
"

def native : String := "
DbgPrompt6 Ldr(θβ8 Findβ_U8) Nls(AnsiCodePage- MbCodePageTag- MbOemCodePageTag-) Nt(AddAtom4
AdjustPrivilegesTokenc λ(LocallyUniqueId2 Uuids6) γΩr8 ΠAtom2 FindAtom4 Lock,k NotifyΘη,i ψEa,i
Unlock,a VdmControl4 W32Calla) Rtl(AbsoluteToSelfRelativeSD6 Add(θAllowedAce8 Acea AtomToAtomTable6
Rangei) Ansi(CharToζChar2 &Toζ(^2 &6)) Append(AsciizTo&4 &To&4 ζ(&To&4 To&4)) Are(AllθesGranted4
AnyθesGranted4 Bits(Clear6 Set6)) Assert8 CharToInteger6 CheckRegistryKey4 Clear(AllBits2 Bits6)
Compare(ι(6 Ulong6) &6 ζ&6) Compress/g Convert(LongToLargeInteger2 SidToζ&6 UlongToLargeInteger2)
Copy(Luid4 RangeList4 Sid6 &4 ζ&4) γ(Acl6 AtomTable4 RegistryKey4 +α4 ζ&4) CustomCPToζNc
Decompress(/c Fragmentg) Π(AtomΦAtomTable4 OwnersRanges4 Rangec RegistryΣ6) DestroyAtomTable2
Downcaseζ&6 EmptyAtomTable4 Enlarged(IntegerMultiply4 Unsigned(Divide8 Multiply4)) Equal(Luid4 Sid4
&6 ζ&6) Extended(IntegerMultiply6 LargeIntegerDivide8 MagicDividea) Fillι(6 Ulong6) Find(ClearBits(6
AndSet6) LeastSignificantBit4 LongestRun(Clear4 Set4) φa MostSignificantBit4 Rangeo SetBits(6
AndClear6)) FormatCurrentUserKeyPath2 |(Ansi&2 Oem&2 RangeList2 ζ&2) Generate8dot3[8
Get(CompressionWorkSpace^6 Dacl+α8 FirstRange6 Group+α6 NextRange6 Owner+α6 Sacl+α8 Version2)
Image(ηEntryToData8 NtHeader2) Init(Ansi&4 CodePageTable4 &4 ζ&4) =(BitMap6 RangeList2 Sid6)
IntegerTo(Char8 ζ&6) InvertRangeList4 Is[LegalDOS8Dot36 IsRangeAvailablek LargeInteger(Add8
ArithmeticShift6 Dividea Negate4 Shift(Left6 Right6) Subtract8) Length(RequiredSid2 +α2 Sid2)
LookupAtomInAtomTable6 MapGenericMask4 MergeRangeLists8 Moveι6 MultiByteToζ(Na ^6) NtυToDosError2
NumberOf(ClearBits2 SetBits2) Oem(&Toζ(^2 &6) ToζNa) PinAtomInAtomTable4 Prefix(&6 ζ&6)
ψ(AtomInAtomTablec RegistryΣsa ΩZone%2) RaiseException2 Random2 SecondsSince19(70ToΩ4 80ToΩ4)
Set(AllBits2 Bits6 Dacl+α8 Group+α6 Owner+α6 Sacl+α8 ΩZone%2) &ΦGUID4 SubAuthority(CountSid2 Sid4)
Ω(FieldsToΩ4 ToSecondsSince19(704 804) ToΩFields4) ζ(&To(Ansi(^2 &6) CountedOem&6 Integer6 Oem(^2
&6)) To(CustomCPNc MultiByte(Na ^6) OemNa)) Unwind8 Upcaseζ(Char2 &(6 To(Ansi&6 CountedOem&6 Oem&6))
To(CustomCPNc MultiByteNa OemNa)) Upper(Char2 &4) Valid(+α2 Sid2) WriteRegistryΣc Zeroι4)
Rtlx(Ansi&Toζ^2 Oem&Toζ^2 ζ&To(Ansi^2 Oem^2)) Zw(θCheckAndοm Clear>2 Close#ο6 γ(η#6 Keye
SymbolicLink#8) Π(Key2 ΣKey4) Ξ&2 Enumerate(Keyc ΣKeyc) Flush(InstructionCache6 Key2) Load(Driver2
Key4) MakeTemporary#2 NotifyΘKeyk Open(η#6 Key6 κ6 SymbolicLink#6 .(8 Token8)) Pulse>4 ψ(ΛLocale4
Keya #a κa SymbolicLink#6 :%8 ΣKeyc) ReplaceKey6 Reset>4 SaveKey4 Set(ΛLocale4 %#8 :%6 ΣKeyc)
Terminate;4 Unload(Driver2 Key2) UnmapViewOfκ4 WaitForMultiple#sa) ~(Alert.2 λVirtualιc Close2
ConnectPortg γ(>a ,m κe) Π,2 νIoControl,k Duplicate(#e Tokenc) |Virtualι8 FsControl,k MapViewOfκk
Open(>6 ,c ;(8 Token6)) ψ(η,m %(Atoma ,a ;a Tokena) +#a :Ω2 Volume%,a) Read,i RequestWaitReplyPort6
Set(>4 %(,a ;8 .8) +#6 :Ω4) WaitForSingle#6 Write,i)
"

def ntdll : String := "
Csr(λ(Capture(/6 Pointer6) φPointer6) Capture(φ(/8 &a) Parameter/8 Ωout4) χCallω8 |Capture/2
ProbeFor(Read6 Write6) ΨParameter/2 SetPriorityClass4) Dbg(Ss]KmApiMsg4 Ss=8 Ui(Continue4
IssueRemoteBreakin2 WaitStateΘ4)) Interlocked(CompareExchange6 Decrement2 Exchange4 Increment2)
Ldr(Disable.CalloutsForDll2 Find(EntryForAddress4 βη_U8) Get(Dll]8 ProcedureAddress8) =Thunk8
LoadDll8 ψ(Image,ExecutionOptionsc ;Module%6) UnloadDll2 VerifyImageMatchesChecksum8) Nt(θCheckAndοm
Clear>2 Close#ο6 γ(η#6 Keye SymbolicLink#8 WaitablePorta) Π(Key2 ΣKey4) Ξ&2 Enumerate(Keyc ΣKeyc)
Flush(InstructionCache6 Key2) Load(Driver2 Key4) MakeTemporary#2 NotifyΘKeyk Open(η#6 Key6 κ6
SymbolicLink#6 .(8 Token8)) Pulse>4 ψ(ΛLocale4 Keya #a κa SymbolicLink#6 :%8 ΣKeyc) ReplaceKey6
Reset>4 SaveKey4 Set(ΛLocale4 %#8 :%6 ΣKeyc) Terminate;4 Unload(Driver2 Key2) UnmapViewOfκ4
WaitForMultiple#sa) Rtl(Acquireβ(Exclusive4 Shared4) Add(θ(AllowedAceExa DeniedAce(8 Exa))
AuditθAcec) AdjustPrivilege8 λ(And=Sidm ]4 Heap6) Base;StartRoutine- CompactHeap4 ComputeCrc326
Convert(ExclusiveToShared2 SharedToExclusive2) Copy(LuidAndAttributesArray6 SidAndAttributesArraye)
γ(σ4 Heapc ;Parametersk ζ&ΦAsciiz4 User(;k .k)) DeNormalize;Params2 Π(Ace4 Criticalκ2 β2) Destroy(σ2
]Table2 Heap2 ;Parameters2) DetermineDosPath[Type_U2 Does,Exists_U2 Dos(Path[ToNtPath[_U8
SearchPath_Uc) DowncaseζChar2 Dumpβ2 Duplicateζ&6 EnterCriticalκ2 Enum;Heaps4 Equal(Computer[4
Domain[4 PrefixSid4) Eraseζ&2 ExitUser.2 Expandσ&s_U8 Find(ClearRuns8 LastBackwardRunClear6
NextForwardRunClear6) First|Ace4 |(]4 Heap6 Sid2 User.Stack4) GUIDΦ&4 Get(Ace6 Control+α6
Currentη_U4 FullPath[_U8 NtProductType2 NtVersionNumbers6 ;Heaps4) IdentifierAuthoritySid2
ImageRvaTo(κ6 Va8) ImpersonateSelf2 InitNlsTables8 =(ρa Criticalκ(2 AndSpinCount4) ]Table6 β2)
Is(Dosν[_U2 GenericTableEmpty2 Textζ6 Valid(]4 Index]6)) LargeIntegerToChar8 LeaveCriticalκ2
LocalΩTo:Ω4 LockHeap2 MakeSelfRelativeSD6 Normalize;Params2 NtPath[ToDosPath[8 OpenCurrentUser4
ψ(σVariable_U6 %Acl8) Raiseυ2 ReλHeap8 Ψβ2 ResetRtlTranslations2 Run(Decodeζ&4 Encodeζ&4)
SelfRelativeToAbsoluteSDm Set(CriticalκSpinCount4 Current(η_U2 σ4) σVariable6 %Acl8) ^Heap6
Subtree(Predecessor2 Successor2) :ΩToLocalΩ4 ΩToElapsedΩFields4 TryEnterCriticalκ2 Uniform2
UnlockHeap2 ValidAcl2 ValidateHeap6) Rtlp(Ensure/^6 Nt(γKeyc EnumerateSubKey8 MakeTemporaryKey2
OpenKey8 ψΣKeya SetΣKey8)) Zw(AddAtom4 AdjustPrivilegesTokenc λ(LocallyUniqueId2 Uuids6) γΩr8 ΠAtom2
FindAtom4 Lock,k NotifyΘη,i ψEa,i Unlock,a VdmControl4 W32Calla) ~(AcceptConnectPortc θCheckg
AdjustGroupsTokenc AlertResume.4 CallbackReturn6 Cancel(Io,4 Ωr4) CompleteConnectPort2 Continue4
γ(Channel4 >Pair6 IoCompletion8 Mailslot,g Mutant8 [dPipe,s Paging,8 Porta ;g Profilei Semaphorea .g
Tokenq) DelayExecution4 Π#ο6 Extendκ4 Flush(/s,4 Virtualι8) Get(ρ.4 PlugPlay>8) Impersonate(χOfPort4
.6) =Registry2 Listen(Channel4 Port4) LoadKey26 LockVirtualι8 Open(Channel4 >Pair6 IoCompletion6
Mutant6 #οo Semaphore6 Ωr6) PlugPlayControl8 Privilege(Check6 #οc) Privilegedμοa ProtectVirtualιa
ψ(Attributes,4 η#e >a FullAttributes,4 %(Porta .a) IntervalProfile4 IoCompletiona MultipleΣKeyc
Mutanta Oleη,m PerformanceCounter4 Semaphorea :σΣ8 Ωr(a Resolution6) Virtualιc) QueueApc.a
Raise(Exception6 HardErrorc) Read(,Scatteri RequestDatac Virtualιa) π.TerminatePort2 Ψ(Mutant4
Semaphore6) RemoveIoCompletiona Reply(Port4 Wait(ReceivePort8 ReplyPort4 SendChannel6)) RequestPort4
RestoreKey6 Resume.4 SendWaitReplyChannel8 Set(ρ(Channel2 .4) ΛHardErrorPort2 Ea,8 High(>Pair2
WaitLow>Pair2) %(Key8 Token8) IntervalProfile4 IoCompletiona LdtEntriesc Low(>Pair2 WaitHigh>Pair2)
:(σΣ4 PowerState6) Ωr(e Resolution6) Volume%,a) Shutdown:2 SignalAndWaitForSingle#8 StartProfile2
StopProfile2 Suspend.4 :DebugControlc Terminate.4 UnlockVirtualι8 Wait(High>Pair2 Low>Pair2)
Write(,Gatheri RequestDatac Virtualιa))
"

end FlowRecovery.Stubs.Windows
