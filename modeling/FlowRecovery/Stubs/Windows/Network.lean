/-!
# Libraries of the network

What libraries for networks, and calls to other machines export. The texts are those that
`Stub.ofText` reads.
-/

namespace FlowRecovery.Stubs.Windows

def netapi32 : String := "
DsGet(Dc(Close2 [*c Next8 Opene) Site[*4) DsValidateSubnet[*2 I_(Browser(Debug(Call6 Trace4)
ψ(EmulatedDomains6 OtherDomains8 Statistics4) Reset(NetlogonState2 Statistics2) ωEnumm
SetNetlogonState8) Net(Account(Deltaso Synco) Database(Deltasg Redoe Sync(g 2i)) Dfs(γ(ExitPointc
LocalPartitione) Π(ExitPoint8 LocalPartition6) FixLocalVolumei Get(Ftωs8 Version4) IsThisADomain[2
ModifyPrefix6 Set(LocalVolumeState8 ω<6)) GetDCList8 List(Canonicalizei Traverse6) Logon(Control(8
2a) GetDomain<e Sam(Logoffc Logoni) Uas(Logoff6 Logon6)) [(Canonicalizec Comparea Validate8)
Path(Canonicalizee Comparea Type8) ω(Authenticate(c 2e 3g) PasswordSet(e 2e) ReqChallenge8
SetμBits(8 Exc))) Netlogon(Compute(χDigesta ωDigesta) GetTrustRid6)) Net(AlertRaise(6 Ex8) Api/(λ4
|2 Reallocate6 ^4) Audit(Clear6 Readm Writea) BrowserStatisticsGet6 Config(Get(8 All6) Sete)
ConnectionEnumg Dfs(Adda Enumc Get<a ManagerGetConfig<e Move4 Remove6 Rename4 Set<a)
EnumerateTrustedDomains4 ErrorLog(Clear6 Readm Writeg) ,(Close4 Enumi Get<8) Get(AnyDC[6 DC[6
Ξ%Index8) Group(Add(8 User6) Del(4 User6) Enume Get(<8 Usersg) Set(<a Usersa)) LocalGroup(Add(8
Member6 Membersa) Del(4 Member6 Membersa) Enume Get(<8 Membersg) Set(<a Membersa)) LogonSetμBits6
φ(/Senda [(Add4 Del4 Enume Get<8)) ψΞ%e Remote(ComputerSupports6 TOD4) Repl(ExportDir(Add8 Del4
Enume Get<8 Lock4 Set<a Unlock6) Get<6 ImportDir(Add8 Del4 Enume Get<8 Lock4 Unlock6) Set<8)
ScheduleJob(Add6 Del6 Enumc Get<6) ω(Computer[(Add6 Del4) DiskEnume Enum(i Exi) Get<6 Set<8
Transport(Add(6 Ex6) Del6 Enume)) μ(Controla Enume Get<8 Installa) Session(Del6 Enumi Get<a)
Share(Add8 Check6 Del(6 Sticky6) Enum(e Stickye) Get<8 Set<a) StatisticsGeta Use(Add8 Del6 Enume
Get<8) User(Add8 ΘPassword8 Del4 Enumg Get(Groupse <8 LocalGroupsg) Modals(Get6 Set8) Set(Groupsa
<a)) Wksta(Get<6 Set<8 Transport(Add8 Del6 Enume) User(Enume Get<6 Set<8))) Netapip/λ4 Netbios2
Netp(θCheck(6 AndAudita) Alloc(Config[8 StrΦ(Str2 WStr2) TStrΦ&4 WStrΦ(Str2 WStr2)) ApiυToNtυ2
AssertFailed8 CloseConfigData2 Copy&To/a γ+#c DbgΞω<4 Π+#2 Get(Computer[2 Config(Bool8 Dword8
TStrArray6 Σ6) Domain[2 ,+8 Privilege4) HexDump4 InitOem&4 IsRemote8 IsUncComputer[Valid2
LogonPutζ&6 NetBios(Add[6 Call8 Del[4 GetAdapterNumbers4 Hangup4 Receivec Reset2 Send8 υToApiυ2)
NtυToApiυ2 OpenConfigData8 Pack&6 Set(Config(Bool6 Dword6 TStrArray6) ,+6) SmbChecka &ToNetBios[8
TStrArrayEntryCount2) Netpw([(Canonicalizea Compare8 Validate6) Path(Canonicalizec Compare8 Type6))
NlBinding(AddωToCache4 RemoveωΦCache4) RxNet(θ(Add8 Del4 Enumi Get(<8 UserPerms8) Set<a) ωEnumk
UserPasswordSet8)
"

def rpcrt4 : String := "
CStdStub/_(AddRef2 Connect4 CountRefs2 Debugω(ψInterface4 Ψ4) Disconnect2 Invoke6 IsIIDSupported4
ψInterface6) DceErrorInqText*4 IUnknown_(AddRef_Proxy2 ψInterface_Proxy6 Ψ_Proxy2)
I_Rpc(AbortAsyncCall4 λ2 Async(AbortCall4 SendReceive6 Set]4) Binding(Copy4 Inq(DynamicEndpoint(4
*4) TransportType4) IsχLocal4 SetAsync4) ClearMutex2 Connection(InqSockBuff^4 SetSockBuff^4) ΠMutex2
|(2 /2 Pipe/2) Get(Associationρ4 /2 ωρList2 .δ]2) IfInqTransferSyntaxes8 MapWin32υ2
MonitorAssociation6 NsBindingSetEntry[(6 *6) Parse+4 PauseExecution2 ReallocPipe/4 Receive4
RequestMutex2 Send(2 Receive2) ω(λIpPort4 InqTransportType2 πForwardFunction2 StartListening2)
Set(Async]4 ωρList4 WMsgEndpoint2) StopMonitorAssociation2 Trans(Connection(λPacket4 |Packet4
ReallocPacket8) Datagram(λ(8 28) |6) IoCancelled4 Pingω2 ω(λPacket4 |Packet4 NewConnection2
ReallocPacket8) Unprotect.2) δProc8) I_Uuidγ2 MIDL_wchar_(strcpy4 strlen2) Mes(/]Resetc Decode(/]γ6
Incremental]γ6) Encode(Dyn/]γ6 Fixed/]γ8 Incremental]γ8) ]|2 Incremental]Resetc InqProcEncodingId6)
NDRCρ(Binding2 ξ4 ε8) NDRSρ(ξ(6 Ex8) ε(4 Ex6)) NDRcopy6 Ndr(λ4 Async(ωCall2 StubCall8)
ByteCountPointer(/^6 |6 ξ6 ε8) CStdStub/(2_Ψ4 _Ψ4) ClearOutParameters6 χ(ρ(ξ6 ε6) =(8 New8))
Complex(Array(/^6 |6 ξ6 ι^4 ε8) Struct(/^6 |6 ξ6 ι^4 ε8)) Conformant(Array(/^6 |6 ξ6 ι^4 ε8) &(/^6
ξ6 ι^4 ε8) Struct(/^6 |6 ξ6 ι^4 ε8) Varying(Array(/^6 |6 ξ6 ι^4 ε8) Struct(/^6 |6 ξ6 ι^4 ε8))) ρ]^6
Convert(4 26) Dll(CanUnloadNow2 GetClass#c πProxy6 UnregisterProxy6) EncapsulatedUnion(/^6 |6 ξ6 ι^4
ε8) FixedArray(/^6 |6 ξ6 ι^4 ε8) |/2 FullPointer(|4 InsertRefId6 ψ(Pointer8 RefId8) Xlat(|2 Init4))
Get(/6 DcomProtocolVersion4 Partial/2 Pipe/6) HardStruct(/^6 |6 ξ6 ι^4 ε8) InterfacePointer(/^6 |6
ξ6 ι^4 ε8) IsAppDoneWithPipes2 MapCommAndFaultυ8 MarkNextActivePipe2 Mes(SimpleType(Align^2 Decode6
Encode8) Type(Align^8 Decode8 Encode8)) Non(Conformant&(/^6 ξ6 ι^4 ε8) EncapsulatedUnion(/^6 |6 ξ6
ι^4 ε8)) NsGet/6 NsSendReceive6 Ole(λ2 |2) Pipe(Pull8 Push6 SendReceive4) Pipes(Done2 =c)
Pointer(/^6 |6 ξ6 ι^4 ε8) Proxy(Error]r2 |/4 Get/4 =a SendReceive4) Rpc(Smχ(λ2 |2) SmSetχToOsf2
Ss(Λ(λ2 |2) Disableλ2 Enableλ2)) SendReceive4 ω(Call(2 22) ρ(ξ6 ε2) =(6 ξ4 New6 Partial8 ε6) ξ8 εc)
Simple(Struct(/^6 |6 ξ6 ι^4 ε8) Type(ξ6 ε6)) Stub(Call(8 28) ForwardingFunction8 Get/6 =(8 ξ6))
UserMarshal(/^6 |6 ξ6 ι^4 SimpleTypeConvert6 ε8) VaryingArray(/^6 |6 ξ6 ι^4 ε8) XmitOrRepAs(/^6 |6
ξ6 ι^4 ε8)) NdrpSetRpcSsΛs4 Rpc(AbortAsyncCall4 Async(AbortCall4 CancelCall4 CompleteCall4 GetCallυ2
=]4 π<2) Binding(Copy4 |2 Φ&Binding*4 Inq(Auth(χ*c <(*c Ex*g)) #4 Option6) Reset2 ωΦχ4 Set(Auth<(*c
Ex*e) #4 Option6) To&Binding*4 Vector|2) Cancel(AsyncCall4 .2) CompleteAsyncCall4 Ep(π(*8
NoReplace*8) ResolveBinding4 Unregister6) GetAsyncCallυ2 IfIdVector|2 IfInqId4 Impersonateχ2
=Async]4 Mgmt(Binding(InqParameter6 SetParameter6) EpEltInq(Beginc Done2 Next*a) EpUnregister8
Inq(ComΩout4 ΛProtectLevel4 IfIds4 Parameter4 ωPrinc[*6 Stats4) IsωListening2 Set(AuthorizationFn2
CancelΩout2 ComΩout4 Parameter4 ωStack^2) StatsVector|2 StopωListening2) Network(InqProtseqs*2
IsProtseqValid*2) NsBindingInqEntry[*6 #(InqType4 Set(InqFn2 Type4)) ProtseqVector|*2
RaiseException2 πAsync<2 RevertToSelfEx2 ω(Inq(Bindings2 ΛPrinc[*4 If6) Listen6 π(Auth<*8 If6 IfExc)
TestCancel2 UnregisterIf6 Use(AllProtseqs(4 Ex6 If6 IfEx8) Protseq(*6 Ep*8 EpEx*a Ex*8 If*8
IfEx*a))) Sm(λ4 χ|2 Destroyχρ2 |2 Get.]2 Set(χAlloc|4 .]2) SwapχAlloc|8) Ss(λ2 Destroyχρ2 |2
Set(χAlloc|4 .]2) SwapχAlloc|8) &(Binding(Compose*c Parse*c) |*2)) Tower(Constructc Explodec)
Uuid(Compare6 γ(2 Nil2) Equal6 Φ&*4 Hash4 IsNil4 To&*4) char_(array_from_ndr8 from_ndr4)
data_(from_ndr8 into_ndr8 size_ndr8) double_(array_from_ndr8 from_ndr4) enum_from_ndr4
float_(array_from_ndr8 from_ndr4) long_(array_from_ndr8 from_ndr(4 _temp6)) short_(array_from_ndr8
from_ndr(4 _temp6)) tree_(into_ndr8 peek_ndr8 size_ndr8)
"

def sockets : String := "
WSAAsync(Get(HostBy(Addre [a) ProtoBy([a Numbera) ServBy([c Portc)) Select8) WSACancelAsyncRequest2
WSASet(BlockingHook2 LastError2) WSAStartup4 __WSAFDIsSet4 accept6 bind6 closesocket2 connect6
gethostbyaddr6 gethostbyname2 gethostname4 getpeername6 getprotobyname2 getprotobynumber2
getservbyname4 getservbyport4 getsockname6 getsockopta htonl2 htons2 inet_(addr2 ntoa2) ioctlsocket6
listen4 ntohl2 ntohs2 recv8 recvfromc selecta send8 sendtoc setsockopta shutdown4 socket6
"

def ws232 : String := "
WPUCompleteOverlappedRequesta WSAAccepta WSAAddressTo&*a WSAClose>2 WSAConnecte WSADuplicateSocket*6
WSAEnum([SpaceProviders*4 Network>s6 Protocols*6) WSA>Select6 WSAGet(OverlappedResulta QOSBy[6
μClass(<*8 [ByClassId*6)) WSAHtonl6 WSAHtons6 WSAInstallμClass*2 WSAIoctli WSAJoinLeafg
WSALookupμ(Begin*6 End2 Next*8) WSANtohl6 WSANtohs6 WSAProviderConfigΘ6 WSARecv(e Disconnect4 Φi)
WSARemoveμClass2 WSAReset>2 WSASend(e Disconnect4 Toi) WSASet(>2 μ*6) WSASocket*c WSA&ToAddress*a
WSAWaitForMultiple>sa WSCDeinstallProvider4 WSCEnableNSProvider4 WSCEnumProtocols8
WSCGetProviderPath8 WSCInstall([Spacea Providera) WSCUnInstall[Space2 freeaddrinfo2 getaddrinfo8
getnameinfoe
"

def wsock32 : String := "
AcceptExg EnumProtocols*6 Get(AcceptExSockaddrsg AddressBy[*k [ByType*6 μ*e TypeBy[*4)
MigrateWinsockConfiguration6 NPLoad[Spaces6 Setμ*c Transmit,e WSARecvEx8 dn_expanda getnetbyname2
inet_network2 rcmdc rexecc rresvport2 s_perror4 sethostname4
"

end FlowRecovery.Stubs.Windows
