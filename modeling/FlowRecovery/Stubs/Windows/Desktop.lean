/-!
# Libraries of the desktop

What libraries for windows, graphics, documents and printers export. The texts are those that
`Stub.ofText` reads.
-/

namespace FlowRecovery.Stubs.Windows

def comctl32 : String := "
γ(MappedBitmapa PropertySheetPage(2 *2) υδ(8 *8) Toolbar(g Exq) UpDownControlo)
DestroyPropertySheetPage2 Draw(Insert6 υText(8 *8)) FlatSB_(EnableScrollBar6 GetScroll(<6 Pos4 Prop6
Range8) SetScroll(<8 Pos8 Prop8 Rangea) ShowScrollBar6) GetEffectiveχRect6 ImageList_(Add(6 Icon4
Masked6) BeginDrag8 Copya γa Destroy2 Drag(Enter6 Leave2 Move4 ShowNolock2) Draw(c Exk Indirect2)
Duplicate2 Get(BkColor2 DragImage4 Icon(6 ^6) Image(Count2 <6 Rect6)) LoadImage(e *e) Mergec Read2
Remove4 Replace(8 Icon6) Set(BkColor4 DragCursorImage8 Filter6 Icon^6 ImageCount4 OverlayImage6)
Write4) InitCommonControlsEx2 =FlatSB2 LBItemΦPt8 MakeDragList2 MenuHelpe PropertySheet(2 *2)
ShowHideMenuCtl6 UninitializeFlatSB2 _TrackMouse>2
"

def comdlg32 : String := "
Choose(Color*2 Font*2) FindText*2 FormatCharDlgProc8 Get(,Title*6 Open,[*2 Save,[*2)
LoadAlterBitmap6 PageSetupDlg*2 PrintDlg(*2 Ex2 ExW2) ReplaceText*2
Ssync_ANSI_UNICODE_Struct_For_WOW6 WantArrows8 dwLBSubclass8 dwOKSubclass8
"

def gdi32 : String := "
Abort(Doc2 Path2) AddFont(MemβEx8 β(*2 Ex*6)) AngleArcc AnimatePalette8 Arc(i Toi) BeginPath2
BitBlti CancelDC2 CheckColorsInGamut8 ChoosePixelFormat4 Chordi Close(EnhMeta,2 Figure2 Meta,2)
Color(CorrectPalette8 MatchToTarget6) Combine(Rgn8 Transform6) Copy(EnhMeta,*4 Meta,*4) γ(Bitmap(a
Indirect2) BrushIndirect2 ColorSpace*2 Compatible(Bitmap6 DC2) DC*8 DIBPatternBrush(4 Pt4) DIBκc
DIBitmapc DiscardableBitmap6 EllipticRgn(8 Indirect2) EnhMeta,*8 Font(*s Indirect(*2 Ex*2))
HalftonePalette2 HatchBrush4 IC*8 Meta,*2 Palette2 PatternBrush2 Pen(6 Indirect2) PolyPolygonRgn8
PolygonRgn6 RectRgn(8 Indirect2) RoundRectRgnc ScalableFontβ*8 SolidBrush2) DPtoLP6 Π(ColorSpace2
DC2 EnhMeta,2 Meta,2 #2) DescribePixelFormat8 νCapabilitiesEx*c DrawEscape8 Ellipsea EnableEUDC2
End(Doc2 Page2 Path2) Enum(EnhMeta,a FontFamilies(*8 Ex*a) Fonts*8 ICMProfiles*6 Meta,8 #s8)
EqualRgn4 Escapea Eudc(LoadLinkW8 UnloadLinkW4) ExcludeClipRecta Ext(γ(Pena Region6) Escapec
FloodFilla SelectClipRgn6 TextOut*g) Fill(Path2 Rgn6) FixBrushOrgEx8 FlattenPath2 FloodFill8
FrameRgna Gdi(Comment6 ΠSpool,]2 End(DocEMF2 PageEMF4) Get(DC2 DevmodeForPage8 Page(Count2 ]6)
Spool,]6) Play(DCScriptc EMFa Journala PageEMF8 PrivatePageEMF6 Scripte) ResetDCEMF4 SetBatchLimit2
Start(DocEMF4 PageEMF2)) Get(ArcDirection2 AspectRatioFilterEx4 Bitmap(Bits6 DimensionEx4) BkColor2
BkMode2 BoundsRect6 BrushOrgEx4 Char(ABCWidths(*8 Float*8 Ia) Width(*8 32*8 Float*8 Ia))
CharacterPlacement*c Clip(Box4 Rgn4) Color(Adjustment4 Space2) Current(#4 PositionEx4) DCBrushColor2
DCOrgEx4 DCPenColor2 DIBColorTable8 DIBitse ν(Caps4 GammaRamp4) EnhMeta,(*2 Bits6 Description*6
Header6 PaletteEntries6 PixelFormat6) Font(Assocυ2 Dataa Language<2 β<W8 ζRanges4) Glyph(Indices*a
Outline(e *e)) GraphicsMode2 ICMProfile*6 KerningPairs(6 *6) LogColorSpace*6 MapMode2 Meta(,(*2
BitsEx6) Rgn4) MiterLimit4 Nearest(Color4 PaletteIndex4) #(*6 Type2) OutlineTextMetrics*6
PaletteEntries8 Path8 Pixel(6 Format2) PolyFillMode2 ROP22 RandomRgn6 RasterizerCaps4 RegionData6
RelAbs4 RgnBox4 Stock#2 StretchBltMode2 :Palette(Entries8 Use2) Text(Align2 CharacterExtra2
Charset(2 <6) Color2 Extent(ExPoint(*e Ie) Point(*8 32*8 I8)) Face*6 Metrics*4) Viewport(ExtEx4
OrgEx4) WinMeta,Bitsa δ(ExtEx4 OrgEx4) WorldTransform4) IntersectClipRecta InvertRgn4 LPtoDP6
Line(DDAc To6) MaskBlto ModifyWorldTransform6 MoveToEx8 Offset(ClipRgn6 Rgn6 ViewportOrgEx8 δOrgEx8)
PaintRgn4 PatBltc PathToRegion2 Piei Play(EnhMeta,(6 Record8) Meta,(4 Record8)) PlgBltk
Poly(Bezier(6 To6) Draw8 PatBlta Polygon8 Polyline8 TextOut*6) Polygon6 Polyline(6 To6) PtInRegion6
PtVisible6 RealizePalette2 Rect(InRegion4 Visible4) Rectanglea RemoveFont(MemβEx2 β(*2 Ex*6))
ResetDC*4 ResizePalette4 RestoreDC4 RoundRecte SaveDC2 Scale(ViewportExtExc δExtExc)
Select(BrushLocal4 Clip(Path4 Rgn4) FontLocal4 #4 Palette6) Set(AbortProc4 ArcDirection4
Bitmap(Bits6 DimensionEx8) BkColor4 BkMode4 BoundsRect6 BrushOrgEx8 Color(Adjustment4 Space4)
DCBrushColor4 DCPenColor4 DIBColorTable8 DIBits(e Toνo) νGammaRamp4 EnhMeta,Bits4 FontEnumeration2
GraphicsMode4 ICMMode4 ICMProfile*4 MagicColors6 MapMode4 MapperFlags4 Meta(,BitsEx4 Rgn2)
MiterLimit6 PaletteEntries8 Pixel(8 Format6 V8) PolyFillMode4 ROP24 RectRgna RelAbs4 StretchBltMode4
:PaletteUse4 Text(Align4 CharacterExtra4 Color4 Justification6) Viewport(ExtEx8 OrgEx8)
WinMeta,Bits8 δ(ExtEx8 OrgEx8) WorldTransform4) Start(Doc*4 Page2) Stretch(Bltm DIBitsq)
Stroke(AndFillPath2 Path2) Swap/s2 TextOut*a TranslateCharset<6 Unrealize#2 Update(Colors2
ICMRegKey*8) WidenPath2 gdiPlaySpoolStreamc
"

def ole32 : String := "
BindMoniker8 CLIPFORMAT_User(|4 Marshal6 ^6 Unmarshal6) CLSIDΦ(ProgID4 &4) Co(CancelCall2 CopyProxy4
γ(|.edMarshaler4 Guid2 Instance(a Exc)) Disconnect#4 DosDateΩTo,Ω6 ,Ω(Now2 ToDosDateΩ6) |Library2
Get(Callρ4 CallerTID2 Cancel#6 Class(θ2 <4 #a) CurrentLogical.Id2 InstanceΦ(,g IStoragee)
InterfaceAndΨStream6 Malloc4 Marshal^Maxc #8 PSClsid4 PublishedApp<6 StandardMarshalc State2
Static(Marshalg #Packetc) StdMarshalEx6 TIDΦIPID2 TreatAsClass4) =(2 Ex4 +i WOW4) Installa
Is]rConnected2 IsOle1Class2 LoadLibrary4 Lock#External6 Marshal(Hresult4 Inter.InterfaceInStream6
Interfacec) ψ(Authenticationμs4 χBlankete ProxyBlanketg Ψ#2) π(ChannelHook4 Class#a MallocSpy2
φFilter4 PSClsid4 Surrogate2) ΨMarshalData2 RevokeClass#2 Set(Cancel#2 ProxyBlanketg State2)
SwitchCallρ4 TaskMem(Alloc2 |2 Realloc4) TreatAsClass4 UnloadingWOW2 Unmarshal(Hresult4 Interface6))
γ(AntiMoniker2 BindCtx4 ClassMoniker4 Data(AdviseHolder2 Cache8) ,Moniker4 GenericComposite6
ILockBytesOnHGlobal6 ItemMoniker6 OleAdviseHolder2 PointerMoniker4 StdProgressIndicator8
StreamOnHGlobal6) Dll(Debug#RPCHook4 GetClass#WOW6) DoDragDrop8 EnableHook#4 FmtIdToPropStg[4
|PropVariantArray4 Get(Class,4 ConvertStg2 DocumentBitStg2 HGlobalΦ(ILockBytes4 Stream4)
HookInterface2 Running#Table4) HACCEL_User(|4 Marshal6 ^6 Unmarshal6) HBITMAP_User(|4 Marshal6 ^6
Unmarshal6) HBRUSH_User(|4 Marshal6 ^6 Unmarshal6) HENHMETAFILE_User(|4 Marshal6 ^6 Unmarshal6)
HGLOBAL_User(|4 Marshal6 ^6 Unmarshal6) HMENU_User(|4 Marshal6 ^6 Unmarshal6) HMETAFILEPICT_User(|4
Marshal6 ^6 Unmarshal6) HMETAFILE_User(|4 Marshal6 ^6 Unmarshal6) HPALETTE_User(|4 Marshal6 ^6
Unmarshal6) HWND_User(|4 Marshal6 ^6 Unmarshal6) HkOleπ#8 IIDΦ&4 Is(Accelerator8 EqualGUID4
Valid(Iid2 Interface2 Ptr(In4 Out4))) MkParseΞ[8 Moniker(CommonPrefixWith6 RelativePathTo8)
Ole(Convert(IStorageTo(OLESTREAM4 OLESTREAMExe) OLESTREAMToIStorage(6 Exe)) γ(e Λ]r8
EmbeddingHelperc Exo Φ(Data(e Exo) ,(g Exq)) Link(e Exo ΦData(e Exo) To,(e Exo)) Menuα4
StaticΦDatae) DestroyMenuα2 DoAutoConvert4 Draw8 DuplicateData6 Get(AutoConvert4 Clipboard2
IconOf(Class6 ,4)) =(2 WOW4) IsCurrentClipboard2 IsRunning2 Load(8 ΦStream6) LockRunning6
MetafilePictΦIconAndLabel8 Note#Visible4 ψ(γΦData2 LinkΦData2) Reg(Enum(FormatEtc6 Verbs4)
Get(Miscυ6 UserType6)) Run2 Save(6 ToStream4) Set(AutoConvert4 Clipboard2 Contained#4 Menuαa)
TranslateAccelerator6) OpenOrγStream6 ProgIDΦCLSID4 Prop(Stg[ToFmtId4 Sys(Alloc&2 |&2)
Variant(Clear2 Copy4)) Read(Class(Stg4 Stm4) FmtUserTypeStg6 OleStgc &Stream4) πDragDrop4
ΨStgMedium2 RevokeDragDrop2 SNB_User(|4 Marshal6 ^6 Unmarshal6) STGMEDIUM_User(|4 Marshal6 ^6
Unmarshal6) Set(ConvertStg4 DocumentBitStg4) Stg(γ(Docfile(8 OnILockBytes8) Prop(SetStg6 Stgc)
StorageExg) GetIFillLockBytesOn(,4 ILockBytes4) IsStorage(,2 ILockBytes2)
Open(AsyncDocfileOnIFillLockBytes8 PropStga Storage(c Exg OnILockBytesc)) SetΩs8) &Φ(CLSID4 GUID26
IID4) UtConvertDvtd(16toDvtd326 32toDvtd166) UtGetDvtd(16<4 32<4) Write(Class(Stg4 Stm4)
FmtUserTypeStg6 OleStg8 &Stream4)
"

def oledlg : String := "
Ole(UIAddVerbMenu*i UIBusy*2 UICanConvertOrActivateAs6 UIΘ(Icon*2 Source*2) UIConvert*2
UIEditLinks*2 UIInsert#*2 UI#Properties*2 UIPasteSpecial*2 UIUpdateLinks*8)
"

def shell32 : String := "
CheckEscapes*4 CommandLineToArgvW4 Control_(FillCache_RunDLL8 RunDLL8) DoσSubst*4 Drag(Accept,s4
Finish2 ψ(,(8 *8 AorWc) Point4)) DuplicateIcon4 Extract(AssociatedIcon(*6 Ex*8) Icon(*6 Exa Ex*a
Res<*a) Versionβ16W4) Find(ExeDlgProc8 Executable*6) |IconList4 InternalExtractIconList*6
OpenAs_RunDLL8 τsGetCommand_RunDLL8 RealShellExecute(*k Ex*m) RegenerateUserσ4 πShellHook4
SHAddToRecentDocs4 SHAppBarφ4 SHBrowseForFolder(2 *2) SHΘNotify8 SH,Operation(2 *2) SHFormatDrive8
SH|[Mappings2 SHGet(DesktopFolder2 ,<(a *a) InstanceExplorer2 Malloc2 PathΦIDList(4 *4)
SpecialFolderLocation6) SHHelpShortcuts_RunDLL8 SHLoadInProc2 She(ΘDir(*2 Ex*2) ConvertPathW6
FullPath*6 Get(Dir(*4 ExW6) PathOffsetW2) RemoveQuotes*2 SetCurDrive2 ShortenPath*4) Shell(About*8
Execute(*c Ex2 Ex*2) HookProc6 _NotifyIcon(4 *4)) Str(Chr(*4 I*4) Cmp(N*6 NI*6) CpyN*6 NCmp(*6 I*6)
NCpy*6 RChr(*6 I*6) RStr(*6 I*6) Str(*4 I*4)) WOWShellExecutee
"

def shlwapi : String := "
ChrCmpI*4 GetMenuPosΦID4 HashData8 IntlStrEqWorker*8 Path(Add(Backslash*2 Extension*4) Append*4
BuildRoot*4 Canonicalize*4 Combine*6 CommonPrefix*6 CompactPath(*6 Ex*8) γΦUrl*8 ,Exists*2
Find(Extension*2 ,[*2 NextComponent*2 OnPath*4) Get(Args*2 CharType*2 DriveNumber*2)
Is(ContentType*4 η*2 ,Spec*2 Prefix*4 Relative*2 Root*2 SameRoot*4 :Folder*4 UNC*2 UNCω(*2 Share*2)
URL*2) Make(Pretty*2 :Folder*2) MatchSpec*4 ParseIconLocation*2 QuoteSpaces*2 RelativePathTo*a
Remove(Args*2 Backslash*2 Blanks*2 Extension*2 ,Spec*2) RenameExtension*4 SearchAndQualify*6
SetDlgItemPath*6 SkipRoot*2 Strip(Path*2 ToRoot*2) Unmake:Folder*2 UnquoteSpaces*2) SHγShellPalette2
SHΠ(EmptyKey*4 Key*4 OrphanKey*4 Σ*6) SHEnum(KeyEx*8 Σ*e) SHGet(InverseCMAP4 Σ*c) SHIsLowιMachine2
SHOpenRegStream*8 SHψ(<Key*a ΣEx*c) SHReg(CloseUSKey2 γUSKey*a Π(EmptyUSKey*6 USΣ*6) Enum(USKey*a
USΣ*g) Get(BoolUSΣ*8 USΣ*g) OpenUSKey*a ψ(<USKey*c USΣ*g) SetUSΣ*c WriteUSΣ*c) SHSetΣ*c Str(CSpn(*4
I*4) CatW4 Chr(*4 I*4) Cmp(IW4 N*6 NI*6 W4) Cpy(NW6 W4) Dup*2 FormatByte^(A6 W8) ΦΩInterval*8
IsIntlEqual*8 NCat*6 PBrk*4 RChr(*6 I*6) RStrI*6 Spn*4 Str(*4 I*4) ToInt(*2 Ex*6) Trim*4)
Url(ApplyScheme*8 Canonicalize*8 Combine*a Compare*6 γΦPath*8 Escape*8 Get(Location*2 Part*a) Hash*6
Is(*4 NoHistory*2 Opaque*2) Unescape*8)
"

def user32 : String := "
ActivateKeyboardLayout4 AdjustδRect(6 Ex8) Animateδ6 AppendMenu*8 ArrangeIconicδs2 Attach.Input6
Begin(DeferδPos2 Paint4) BlockInput2 BringδToTop2 Broadcast:φ(a *a) Call(MsgFilter(4 *4) NextHookEx8
δProc*a) Cascade(Childδs4 δsa) Θ(ClipboardChain4 ΞSettings(*4 Ex*a) Menu*a) Char(Lower(*2 Buff*4)
Next(*2 ExA6) Prev(*4 ExA8) ToOem(*4 Buff*6) Upper(*2 Buff*4)) Check(DlgButton6 Menu(Item6
RadioItema) RadioButton8) ChildδΦPoint(6 Ex8) χToScreen4 ClipCursor2 Close(Desktop2 δ(2 Station2))
Copy(AcceleratorTable*6 Icon2 Imagea Rect4) γ(AcceleratorTable*4 Caret8 Cursore Desktop*c
Dialog(IndirectParam*a Param*a) Icon(e Φβ(8 Exe) Indirect2) MDIδ*k δ(Ex*o Station*8))
Dde(AbandonTransaction6 θData4 AddData8 χTransactiong Cmp&]s4 Connect(8 Lista) γ(Data]e &]*6)
Disconnect(2 List2) EnableCallback6 |(Data]2 &]4) Get(Data8 LastError2 QualityOfμ6) Impersonateχ2
=*8 Keep&]4 [μ8 PostAdvise6 ψ(Conv<6 Nextω4 &*a) Reconnect2 Set(QualityOfμ6 User]6) UnaccessData2
Uninitialize2) Def(DlgProc*8 FrameProc*a MDIChildProc*8 δProc*8) DeferδPosg ΠMenu6
Destroy(AcceleratorTable2 Cursor2 Icon2 Menu2 δ2) DialogBox(IndirectParam*a Param*a) Dispatchφ*2
DlgDir(List(*a ComboBox*a) Select(ComboBoxEx*8 Ex*8)) Drag(Detect6 #a) Draw(AnimatedRects8 Caption8
Edge8 FocusRect4 Frame(8 Control8) Icon(8 Exi) MenuBar2 State*k Text(*a Ex*c)) EditWndProc8
Enable(MenuItem6 ScrollBar6 δ4) End(DeferδPos2 Dialog4 Paint4) Enum(Childδs6 ClipboardFormats2
Desktopδs6 Desktops*6 Ξ(Monitors8 Settings(*6 Ex*8)) Props(*4 Ex*6) .δs6 δStations*4 δs4) EqualRect4
ExcludeUpdateRgn4 ExitδsEx4 FillRect6 Findδ(*4 Ex*8) Flashδ4 FrameRect6 |DDElParam4 Get(AltTab<(a
*a) Ancestor4 AsyncKeyState2 CaretPos2 Class(<(*6 Ex*6) Long*4 [*6 Word4) χRect4 ClipCursor2
Clipboard(Data2 Format[*6) ComboBox<4 Cursor(<2 Pos2) DC2 DCEx6 Dlg(CtrlID2 Item(4 Int8 Text*8))
GUI.<4 Guiβs4 Icon<4 Key([Text*6 State2) Keyboard(Layout(2 List4 [*2) State2 Type2)
Last(ActivePopup2 Input<2) ListBox<2 Menu(2 Bar<8 ρHelpId2 ΛItem6 <4 Item(Count2 ID4 <*8 Rect8)
State6 &*a) φ*8 Monitor<*4 MouseMovePointsa NextDlg(GroupItem6 TabItem6) Parent2
PriorityClipboardFormat4 ;ΛLayout2 Prop*4 Queueυ2 Scroll(Bar<6 <6 Pos4 Range8) SubMenu4 SysColor(2
Brush2) :(Menu4 Metrics2) TabbedTextExtent*a .Desktop2 TitleBar<4 Topδ2 Update(Rect6 Rgn6) User#(%*a
+a) δ(4 ρHelpId2 DC2 <4 Long*4 Module,[(6 *6) Placement4 Rect4 Rgn4 Text(*6 Length*2) .;Id4 Word4))
Gray&*i HideCaret2 HiliteMenuItem8 IMPGetIME*4 IMPψIME*2 IMPSetIME*4 ImpersonateDdeχδ4 InSendφEx2
InflateRect6 InsertMenu(*a Item*8) IntersectRect6 Invalidate(Rect6 Rgn6) InvertRect4
Is(Char(Alpha(*2 Numeric*2) Lower*2 Upper*2) Child4 ClipboardFormatAvailable2 Dialogφ(4 *4)
DlgButtonChecked4 Iconic2 Menu2 RectEmpty2 δ(2 Enabled2 ζ2 Visible2) Zoomed2) Kill(:Ωr4 Ωr4)
Load(Accelerators*4 Bitmap*4 Cursor(*4 Φ,*2) Icon*4 Image*c KeyboardLayout*4 Menu(*4 Indirect*2)
&*8) LockδUpdate2 LookupIconIdΦη(4 Exa) Map(DialogRect4 VirtualKey(*4 Ex*6) δPoints8)
MenuItemΦPoint8 φ(Beep2 Box(*8 Ex*a Indirect*2)) ModifyMenu*a MonitorΦ(Point6 Rect4 δ4) Moveδc
MsgWaitForMultiple#s(a Exa) NotifyWin>8 Oem(KeyScan2 ToChar(*4 Buff*6)) OffsetRect6 Open(Clipboard2
Desktop*8 Icon2 InputDesktop6 δStation*6) PackDDElParam6 PaintDesktop2 Peekφ*a Post(φ*8 Quitφ2 .φ*8)
PtInRect6 Real(ChildδΦPoint6 GetδClass(6 *6)) Redrawδ8 π(Class(*2 Ex*2) ClipboardFormat*2 νΓ*6
HotKey8 δφ*2) ΨDC4 Remove(Menu6 Prop*4) Replyφ2 ReuseDDElParama ScreenToχ4 Scroll(Children6 DCe δ(a
Exg)) Send(DlgItemφ*a IMEφEx*4 Input6 φ(*8 Callback*c Ωout*e) Notifyφ*8) Set(Activeδ2 Capture2
Caret(BlinkΩ2 Pos4) Class(Long*6 Word6) Clipboard(Data4 Viewer2) Cursor(2 Pos4) DebugErrorLevel2
DeskWallpaper2 DlgItem(Int8 Text*6) DoubleClickΩ2 Focus2 Foregroundδ2 KeyboardState2 LastErrorEx4
Menu(4 ρHelpId4 ΛItem6 <4 Item(Bitmapsa <*8)) φ(Extra<2 Queue2) Parent4 ;(ΛLayout2 δStation2) Prop*6
Rect(a Empty2) Scroll(<8 Pos8 Rangea) Shellδ2 SysColors6 :(Cursor4 Menu4 Ωr8) .Desktop2 Ωr8
User#(%*8 +6) Win>Hooke δ(ρHelpId4 Long*6 Placement4 Pose Rgn6 Text*4 Word6) δsHook(*4 Ex*8))
Show(Caret2 Cursor2 OwnedPopups4 ScrollBar6 δ(4 Async4)) SubtractRect6 SwapMouseButton2
SwitchDesktop2 :Parameters<*8 TabbedTextOut*g Tile(Childδs4 δsa) ToAscii(a Exc) Toζ(c Exe)
Track(Mouse>2 PopupMenu(e Exc)) Translate(Accelerator(6 *6) MDISysAccel4 φ2) Unhook(Win>2 δsHook(4
Ex2)) UnionRect6 UnloadKeyboardLayout2 UnpackDDElParam8 Unregister(Class*4 νΓ2 HotKey4) Updateδ2
User]Grantθ4 Validate(Rect4 Rgn4) VkKeyScan(*2 Ex*4) WINNLSEnableIME4 WINNLSGet(Enableυ2 IMEHotkey2)
WaitForInputIdle4 WinHelp*8 δΦ(DC2 Point4) keybd_event8 mouse_eventa wvsprintf*6
"

def winspool : String := "
ADVANCEDSETUPDIALOG8 Abortτ2 Add(Form*6 Job*a Monitor*6 PerMachineConnection*8 Port(*6 Ex*8)
Print(;or*8 Providor*6) τ(*6 Connection(*2 UI6) Driver(*6 Ex*8))) Advanced(DocumentProperties*a
SetupDialog8) Closeτ2 ClusterSpl(Close2 IsAlive2 Opena) ConfigurePort*6 ConnectToτDlg4
Convert(AnsiDevModeToζDevmode8 ζDevModeToAnsiDevmode8) γτIC4 DEVICECAPABILITIESa DEVICEMODE8
Π(Form*4 Monitor*6 PerMachineConnection*4 Port*6 Print(;or*6 Providor*6) τ(2 Connection*2 Data(*4
Ex*6) Driver(*6 Ex*a) IC2 Key*4)) DevψPrint(6 Ex2) ν(Capabilities(a *a) Mode8 PropertySheets4)
Document(>e Properties*c PropertySheets4) EXTDEVICEMODEg End(Docτ2 Pageτ2) Enum(Forms*c Jobs*g
Monitors*c PerMachineConnections*a Ports*c Print(;orDatatypes*e ;ors*e) τ(Data(*i Ex*c) Drivers*e
Key*a PropertySheets8) τs*e) ExtνModeg Find(CloseτΘΓ2 FirstτΘΓ8 NextτΘΓ8) |τNotify<2 Get(Λτ*4 Form*c
Job*c Print;orη*c τ(*a Data(*c Ex*e) Driver(*c η*c) HTMLView*a Web%8)) =Dll6 LoadτDriver2 Openτ*6
PlayGdiScriptOnτICc τ(φBox*c Properties4) ψ(RemoteFonts6 SpoolMode6) Readτ8 Resetτ*4 ScheduleJob4
Seekτc Set(AllocFailCounta Λτ*2 Form*8 Job*a Port*8 τ(*8 Data(*a Ex*c) HTMLView*6))
Spooler(DevψPrintWa τ>8) Start(Doc(Dlg*4 τ*6) Pageτ2) WaitForτΘ4 Writeτ8 XcvDataWg
"

end FlowRecovery.Stubs.Windows
