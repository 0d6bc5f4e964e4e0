/-!
# Libraries of drivers

What libraries for the kernel, and drivers of devices export. The texts are those that `Stub.ofText`
reads.
-/

namespace FlowRecovery.Stubs.Windows

def hal : String := "
@Hal:VectorDispatchEntry6 Hal(AcquireΞOwnership2 AdjustβList2 λ(AdapterChannel8 Common/8)
AssignSlotβsg Begin:Interrupt6 CalibratePerformanceCounter2 Disable:Interrupt4 Ξ&2 Enable:Interrupt6
End:Interrupt4 FlushCommon/g |Common/c Get(Adapter4 BusData(a ByOffsetc) σVariable6
InterruptVectorc) ]NMI2 Init:4 =;or4 MakeBeep2 ψ(ΞParameters8 RealΩClock2) ReadDmaCounter2
RequestIpi2 ReturnToFirmware2 Set(BusData(a ByOffsetc) ΞParameters4 σVariable4 RealΩClock2)
StartNext;or4 TranslateBusAddressc) Io(AssignDriveLetters8 FlushAdapter/sc |(AdapterChannel2 Mapπs6)
MapTransferc) KdComPortInUse- KdPort(GetByte(2 Ex4) =(6 Ex6) PollByte(2 Ex4) PutByte(2 Ex4))
Ke(AcquireSpinLock4 LowerIrql2 ψPerformanceCounter2 RaiseIrql4 ΨSpinLock4 StallExecution;or2)
READ_PORT_(BUFFER_(UCHAR6 ULONG6 USHORT6) UCHAR2 ULONG2 USHORT2) WRITE_PORT_(BUFFER_(UCHAR6 ULONG6
USHORT6) UCHAR4 ULONG4 USHORT4)
"

def ntoskrnl : String := "
!KeBugCheck(2 Exa) !_purecall0 @ExInterlocked(AddUlong6 CompareExchange648 Insert(HeadList6
TailList6) PushEntry(List6 SList6)) @ExfInterlocked(AddUlong6 Insert(HeadList6 TailList6)
PushEntryList6) @InterlockedCompareExchange6 Cc(Copy(Readc Writea) FlushCache8 Get,#ΦκPtrs2 MapDatac
MdlReadComplete4 Ros(=,Cache4 Ψ,Cache2) Set(DirtyPinnedData4 ,^s4) UnpinData2 ZeroData8)
DbgBreakPointWithυ2 DpcQueue^- Ex(Acquire(β(Exclusive(4 Lite4) SharedLite4) Shared(StarveExclusive4
WaitForExclusive4)) λPool(4 With(Quota(4 Tag6) Tag6)) ConvertExclusiveToSharedLite2 γCallback8
Π(BinaryTree2 HashTable2 NPagedLookasideList2 PagedLookasideList2 β(2 Lite2) SplayTree2)
Desktop#Type- DisableβBoostLite2 >#Type- ExtendZone6 |(Pool(2 WithTag4) ToPagedLookasideList4)
Get(ExclusiveWaiterCount2 SharedWaiterCount2) =(BinaryTree6 HashTable8 NPagedLookasideListe
PagedLookasideListe β(2 Lite2) SplayTree8 Zone8) Insert(BinaryTree6 HashTable8 SplayTree6)
Interlocked(AddLargeInteger8 DecrementLong4 ExchangeUlong6 ExtendZone8 IncrementLong4)
Is;orFeaturePresent2 IsβAcquired(ExclusiveLite2 SharedLite2) LocalΩTo:Ω4 NotifyCallback6 Post:>6
QueueWorkItem4 Raiseυ2 πCallback6 ReinitializeβLite2 ΨβFor.(4 Lite4) Remove(BinaryTree6 HashTable8
SplayTree6) Search(BinaryTree6 HashTable8 SplayTree6) SetβOwnerPointer4 :ΩToLocalΩ4
Traverse(BinaryTree8 SplayTree8) TryToAcquireβExclusiveLite2 UnregisterCallback2 WeightOfSplayTree4
δStation#Type-) Exi386Interlocked(DecrementLong2 ExchangeUlong4 IncrementLong2)
FsRtl(Add(LargeMcbEntrye McbEntry8 ToTunnelCacheg) λ(,Lock4 Pool(4 With(Quota(4 Tag6) Tag6)))
Are[sEqual8 BalanceReads2 Check(LockFor(Readθ4 Writeθ4) Oplocka) Copy(Readg Writeg)
CurrentBatchOplock2 Π(KeyΦTunnelCache6 TunnelCache2) DeregisterUncProvider2 Dissect(Dbcs8 [8)
Does(DbcsContainWildCards2 [ContainWildCards2) Fast(CheckLockFor(Readc Writec) Unlock(All(8 ByKeya)
Singleg)) FindInTunnelCacheg Get(,^4 Next(,Lock4 LargeMcbEntrya McbEntrya)) =(,Lock6 LargeMcb4 Mcb4
Oplock2 TunnelCache2) Is(DbcsInExpression4 FatDbcsLegala HpfsDbcsLegala [InExpression8
NtstatusExpected2 TotalνFailure2) LegalAnsiCharacterArray- Lookup(LargeMcbEntryg Last(LargeMcbEntry6
McbEntry6) McbEntrya) Mdl(Read(c Complete(4 Dev6) Deve) WriteComplete(6 Dev8)) NormalizeNtstatus4
Notify(Θηe Cleanup6 Full(Θηk ReportΘi) =Sync2 ReportΘa UninitializeSync2 Volume>4)
NumberOfRunsIn(LargeMcb2 Mcb2) Oplock(Fsctrl6 IsFastIoPossible2) Post(Paging,StackOverflow6
StackOverflow6) PrepareMdlWrite(c Deve) PrivateLocko ;,Lock6 πUncProvider6 Remove(LargeMcbEntrya
McbEntry6) SplitLargeMcba SyncVolumes6 Truncate(LargeMcb6 Mcb4) Uninitialize(,Lock2 LargeMcb2 Mcb2
Oplock2)) Hal(DispatchTable- PrivateDispatchTable-) Inbv(Ξ&2 Enable(BootDriver2 Ξ&2)
InstallΞ&Filter2 NotifyΞOwnershipLost2 Set(ScrollRegion8 TextColor2) SolidColorFilla)
Io(Acquire(CancelSpinLock2 RemoveLockExa VpbSpinLock2) Adapter#Type- λ(AdapterChannela Controller8
Driver#Extension8 ErrorLogEntry4 Irp4 Mdla WorkItem2) Assignβsc Attachν(6 ByPointer4 ToνStack4)
Build(AsynchronousFsdRequestc νIoControlRequesti PartialMdl8 SynchronousFsdRequeste) CallDriver4
CancelIrp2 Check(Desiredθ4 Ea/Validity6 Functionθc Shareθa) CompleteRequest4 ConnectInterruptm
γ(Controller2 νe ,s Γ>4 Stream,#4 SymbolicLink4 Synchronization>4 UnprotectedSymbolicLink4)
Π(Controller2 ν2 SymbolicLink2) Detachν2 ν(]r#(^- Type-) #Type-) DisconnectInterrupt2 Driver#Type-
EnqueueIrp2 FastψNetworkAttributesa ,#Type- |(Controller2 Irp2 Mdl2 WorkItem2) Get(Attachedν(2
Reference2) Base,:ν#2 ν(#Pointer8 Propertya ToVerify2) Driver#Extension4 Relatedν#2 Requestor;2
StackLimits4) =(Irp6 RemoveLockExa Ωr6) Invalidateν(Relations4 State2) IsOperationSynchronous2
IsWdmVersionAvailable4 MakeAssociatedIrp4 Openν(InstanceKeya RegistryKey8) PageReada
ψ(ν(Descriptiong Enum<4) ,%a Volume%a) Queue(.Irp2 WorkItem8) Raise(HardError6 %alHardError6)
Read(OperationCount- PartitionTable8 TransferCount-) π(νInterface8 DriverReinitialization6 ,:2
FsRegistrationΘ4 PlugPlayΓe ShutdownΓ2) Ψ(CancelSpinLock2 RemoveLock(AndWaitEx6 Ex6) VpbSpinLock2)
RemoveShareθ4 Report(HalβUsage8 βUsagei) Set(ν(InterfaceState4 ToVerify4) HardErrorOrVerifyν4 %8
Partition%8 Shareθ8 .HardErrorMode2 TopLevelIrp2) Start(NextPacket(4 ByKey6) Packet8 Ωr2)
StatisticsLock- StopΩr2 SynchronousPageWritea .To;2 Unregister(,:2 FsRegistrationΘ4 PlugPlayΓ2
ShutdownΓ2) UpdateShareθ4 VerifyVolume4 WMIRegistrationControl4 Write(ErrorLogEntry2 OperationCount-
PartitionTablea TransferCount-)) KdDebugger(Enabled- NotPresent-) Kd:DebugControl2 Ke(386(CallBios4
IoSetθ;4 ψIoθMap4 SetIoθMap4) AcquireSpinLockAtDpcLevel2 Add:μTablea Attach;2 CancelΩr2 Clear>2
ConnectInterrupt2 DcacheFlushCount- DelayExecution.6 DeregisterBugCheckCallback2
DisconnectInterrupt2 IcacheFlushCount- =(Apcg νQueue2 Dpc6 >6 Interruptm Mutant4 Mutex4 Queue4
Semaphore6 SpinLock2 Ωr(2 Ex4)) Insert(ByKeyνQueue6 νQueue4 HeadQueue4 Queue(4 Apc8 Dpc6))
LoaderBlock- Number;ors- Pulse>6 ψ(:Ω2 TickCount2) ReadState(>2 Mutant2 Mutex2 Queue2 Semaphore2
Ωr2) πBugCheckCallbacka Ψ(Mutant8 Mutex4 Semaphore8 SpinLockΦDpcLevel2) Remove(ByKeyνQueue4 νQueue2
EntryνQueue4 Queue(6 Dpc2)) Reset>2 RestoreFloatingPointState2 Ros(DumpStackFrames4 PrintAddress2)
RundownQueue2 SaveFloatingPointState2 μαTable- Set(Affinity.4 BasePriority.4 >6 ImportanceDpc4
Priority.4 Target;orDpc4 Ωr(8 Exa)) SynchronizeExecution6 TickCount- WaitFor(Multiple#sg Mutex#a
Single#a)) Ki(DeliverApc6 InterruptDispatch24 RawTicks-) Lsa(CallAuthenticationPackagee
DeregisterLogon;4 |Return/2 LogonUsers LookupAuthenticationPackage6 πLogon;6) Mm(AdjustWorkingSet^6
λ(Contiguous(Alignedιi ι(6 SpecifyCacheg)) NonCachedι2 PagesForMdle) BuildMdlForNonPagedPool2
Can,BeTruncated4 Copy(ΦCaller6 ToCaller6) γ(Mdl6 κg) DbgTranslatePhysicalAddress4
DisableModifiedWriteOfκ2 FlushImageκ4 ForceκClosed4 |(Contiguousι(2 SpecifyCache6) NonCachedι4
PagesΦMdl2) GetPhysicalAddress2 GrowKernelStack2 HighestUserAddress- IsAddressValid2
IsNonPaged:AddressValid2 LockPagable(Dataκ2 Imageκ2 κBy]2) Map(IoSpace8 LockedPages(4 SpecifyCachec)
ιDumpMdl2 VideoΞ8 View(In:Space6 Ofκk)) PageEntireDriver2 ProbeAndLockPages6 ResetDriverPaging2
κ#Type- SecureVirtualι6 Set(AddressRangeModified4 Bankedκc) ^OfMdl4 Unlock(PagableImageκ2 Pages2)
Unmap(IoSpace4 LockedPages4 VideoΞ4 View(In:Space2 Ofκ4)) UnsecureVirtualι2 UserProbeAddress-)
Nls(LeadByte<- OemLeadByte<-) Nt(BuildNumber- GlobalFlag- RequestPorta) Ob(Assign+8 γ#i
Dereference#2 Get#(PointerCount2 +6) Insert#c MakeTemporary#2 Open#By([e Pointere) ψ([&8
#AuditingBy]4) Reference#By(]c [g Pointer8) Ψ#+4) Po(CallDriver4 π(νForIdleDetection8 :State4)
RequestPowerIrpc Set(νBusy2 PowerState6 :State2) StartNextPowerIrp2 Unregister:State2)
ProbeFor(Read6 Write6) Ps(AssignImpersonationToken4 γ(:(;6 .e) Win32;2) EstablishWin32Calloutsc
GetVersion8 Impersonateχa Initial:;- Is.Terminating2 Lookup(;(By;Id4 .ByCid6) .By.Id4) ;Type-
Reference(ImpersonationToken8 PrimaryToken2) Set(γ(;NotifyRoutine4 .NotifyRoutine2)
LoadImageNotifyRoutine2) Terminate:.2 .Type-) READ_REGISTER_(BUFFER_(UCHAR6 ULONG6 USHORT6) UCHAR2
ULONG2 USHORT2) Rtl(CompressChunkse DecompressChunkse DescribeChunka FindFirstRun(Clear4 Set4)
GetΛCodePage4 NtυToDosErrorNoTeb2 Oem&ToCountedζ&6 ReserveChunka) Se(θCheckk Assign+e Capture(+αa
Subjectρ2) γχ+8 Deassign+2 Π#ο4 Exports- Impersonateχ4 LockSubjectρ2 Open#(οi ForΠοi)
PrivilegeCheck6 PublicΛDacl- ψ(AuthenticationIdToken4 +α<8) ΨSubjectρ2 Set+α<c SinglePrivilegeCheck6
:ΛDacl- Token(ImpersonationLevel2 Type2) UnlockSubjectρ2 Valid+α4) WRITE_REGISTER_(BUFFER_(UCHAR6
ULONG6 USHORT6) UCHAR4 ULONG4 USHORT4) WmiψTrace%a _(alldiv8 allmul8 allrem8 aulldiv8)
"

def scsiport : String := "
ScsiPort(CompleteRequesta Convert(PhysicalAddressToUlong4 UlongToPhysicalAddress2) FlushDma2 |νBase4
Get(BusDatac νBasee LogicalUnit8 PhysicalAddress8 Srba UncachedExtension6 VirtualAddress6) =8
IoMapTransfer8 LogErrore Moveι6 Read(Port(/(Uchar6 Ulong6 Ushort6) Uchar2 Ulong2 Ushort2) π(/(Uchar6
Ulong6 Ushort6) Uchar2 Ulong2 Ushort2)) SetBusDataByOffsete StallExecution2 ValidateRangee
Write(Port(/(Uchar6 Ulong6 Ushort6) Uchar4 Ulong4 Ushort4) π(/(Uchar6 Ulong6 Ushort6) Uchar4 Ulong4
Ushort4)))
"

def stream : String := "
StreamClassπAdapter6
"

def wmilib : String := "
Wmi(CompleteRequesta :Control8)
"

end FlowRecovery.Stubs.Windows
