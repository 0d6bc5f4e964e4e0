import FlowRecovery.Proofs.IA32.Layouts

/-!
# Addition and subtraction

The instructions `add`, `sub`, `adc` and `sbb` have a group of templates for every size
(`Arithmetic.templates`). Which of them is chosen depends only on the kinds of the operands
(`OperandKind`, `Arithmetic.layout`), so the choice is decided once for all operands
(`chosen_layout`).

The flags are set after the result has been written, and from the operands as they are then
(`Arithmetic.shown`). What they should tell is said by the exact results with and without signs
(`Arithmetic.status`).
-/

namespace FlowRecovery.IA32

open FlowRecovery.Expr Instruction Word

variable {s : Size} {e p : Expr}

/-! ### Operations -/

/-- Addition or subtraction, perhaps of the carry flag too. -/
structure Arithmetic where
  subtracts : Bool
  carries : Bool
  deriving DecidableEq

namespace Size

def all : List Size := [byte, word, dword]

theorem mem_all (s : Size) : s ∈ all := by cases s <;> decide

/-- The last letter of the names of instructions on numbers of the size. -/
def letter : Size → String
  | byte => "b"
  | word => "w"
  | dword => "l"

/-- The carry flag as a number of the size. The numbers in it have `u` bits. -/
def carry (s : Size) (u : Int) : Expr := .op .zeroFill [.num 1 u, .num (Int64.ofNat (s.bits - 1)) u, .var CF]

end Size

namespace Arithmetic

variable (o : Arithmetic)

def mnemonic (s : Size) : String :=
  (if o.carries then if o.subtracts then "sbb" else "adc" else if o.subtracts then "sub" else "add") ++ s.letter

def place (s : Size) : Var := if o.carries then s.reg else modrm

def layouts : Size → List (Layout × String)
  | .byte => [(.accumulator, "IAL"), (.number, "IB"), (.intoPlace, "MRB"), (.intoRegister, "RMB")]
  | .word => (.accumulator, "IAX") :: (if o.carries then [] else [(.short, "IBOW")]) ++
      [(.number, "IW"), (.intoPlace, "MROW"), (.intoRegister, "RMOW")]
  | .dword => [(.short, "IBOD"), (.number, "ID"), (.accumulator, "IEAX"), (.intoPlace, "MROD"), (.intoRegister, "RMOD")]

theorem two_le_layouts (s : Size) : 2 ≤ (o.layouts s).length := by
  cases s <;> simp [layouts]

def signed (y : Expr) : Expr := if o.subtracts then .op .neg [y] else y

/-- The result, as templates compute it from the first operand or its copy. -/
def sum (s : Size) (b y : Expr) : Expr :=
  .op .plus (b :: o.signed y :: if o.carries then [o.signed (s.carry unknownWidth)] else [])

def flags (s : Size) (x y : Expr) : List Flag :=
  if o.subtracts then differenceFlags x (.var s.scratch) y else sumFlags x (.var s.scratch) y

def template (s : Size) (f : Layout) (name : String) : Template :=
  ⟨name, f.parameters s (o.place s), some ((operationBody s (f.first s (o.place s))
    (o.sum s (f.start s (o.place s)) (f.second s)) (o.flags s (f.first s (o.place s)) (f.second s))).map .ofEffect)⟩

def templates (s : Size) : List Template :=
  (o.layouts s).map fun (f, ending) => o.template s f ((o.mnemonic s).toUpper ++ "." ++ ending)

end Arithmetic

/-! ### The choice of templates -/

/-- The kinds of operands that count differently when a template is chosen. -/
inductive OperandKind where
  | accumulator | register | memory | number | short
  deriving DecidableEq

namespace OperandKind

def operand (s : Size) : OperandKind → Operand
  | accumulator => .register (s.register 0)
  | register => .register (s.register 1)
  | memory => .memory default
  | number => .immediate 0 s.type
  | short => .immediate 0 .int8

def all : List OperandKind := [accumulator, register, memory, number, short]

end OperandKind

def Place.kind : Place s → OperandKind
  | register n => if n = 0 then .accumulator else .register
  | memory .. => .memory

def Source.kind : Source s → OperandKind
  | place p => p.kind
  | number .. => .number
  | short .. => .short

theorem Operand.ranks_register {n : Fin 8} (h : n ≠ 0) (s : Size) :
    (Operand.register (s.register n)).Ranks (.register (s.register 1)) := by
  refine ⟨?_, fun q => ?_⟩
  · revert h
    revert n
    cases s <;> decide
  · cases s <;> rfl

theorem Place.ranks_kind (p : Place s) : p.operand.Ranks (p.kind.operand s) := by
  cases p with
  | register n =>
    by_cases hn : n = 0
    · subst hn
      exact Operand.ranks_refl _
    · rw [kind, if_neg hn]
      exact Operand.ranks_register hn s
  | memory m hm ht => exact Operand.ranks_memory m _

theorem Source.ranks_kind (y : Source s) : y.operand.Ranks (y.kind.operand s) := by
  cases y with
  | place p => exact p.ranks_kind
  | number v t ht =>
    have htype : s.type.bits = s.bits := by cases s <;> rfl
    exact Operand.ranks_immediate (ht.trans htype.symm) v 0
  | short v t ht => exact Operand.ranks_immediate ht v 0

namespace Arithmetic

def admits (o : Arithmetic) (s : Size) (k k' : OperandKind) : Bool :=
  (k == .accumulator || k == .register || (k == .memory && k' != .memory && !o.carries)) &&
    !(k' == .short && s == .byte) && !(k' == .memory && o.carries)

def layout (o : Arithmetic) (s : Size) (k k' : OperandKind) : Layout :=
  match k' with
  | .accumulator => if k = .accumulator then .accumulator else .intoPlace
  | .register => .intoPlace
  | .memory => .intoRegister
  | .number => .number
  | .short => if o.carries ∧ s = .word then if k = .accumulator then .accumulator else .number else .short

end Arithmetic

/-! ### Operands -/

namespace Source

/-- The expression `e` stands for the source, and becomes `e'` when it gets its width. A number of 8
bits is extended by its template, or gets its width with all other numbers. -/
inductive Denotes (r : Registers) : Source s → Expr → Expr → Prop where
  | place {p : Place s} {e : Expr} (h : p.Denotes r e) : Denotes r (.place p) e e
  | number (v : Int) (t : DataType) (ht : t.bits = s.bits) :
      Denotes r (.number v t ht) (.num (ofBits (BitVec.ofInt s.bits v)) s.bits)
        (.num (ofBits (BitVec.ofInt s.bits v)) s.bits)
  | extended (v : Int) (t : DataType) (ht : t.bits = 8) :
      Denotes r (.short v t ht) (.num (ofBits ((BitVec.ofInt 8 v).signExtend s.bits)) s.bits)
        (.num (ofBits ((BitVec.ofInt 8 v).signExtend s.bits)) s.bits)
  | short (v : Int) (t : DataType) (ht : t.bits = 8) (hs : s ≠ .byte) :
      Denotes r (.short v t ht) (.num (ofBits (BitVec.ofInt 8 v)) 8) (.num (ofBits (BitVec.ofInt 8 v)) s.bits)

theorem ofBits_signExtend (b : BitVec 8) (s : Size) : ofBits (b.signExtend s.bits) = ofBits b := by
  have hle : 8 ≤ s.bits := by cases s <;> decide
  apply Int64.toInt_inj.mp
  rw [toInt_ofBits s.bits_le, toInt_ofBits (by decide), BitVec.toInt_signExtend_of_le hle]

theorem inferWidth_short (hs : s ≠ .byte) (b : BitVec 8) :
    (Expr.num (ofBits b) 8).inferWidth s.bits = .ok (.num (ofBits b) s.bits) := by
  have hlt : (8 : Int) < s.bits := by cases s <;> simp [Size.bits] at hs ⊢
  have hfits : Expr.number (ofBits b) s.bits = .num (ofBits b) s.bits := by
    refine number_of_fits s.one_lt_bits ?_
    rw [← ofBits_signExtend _ s]
    exact fits_ofBits s.bits_le _
  have h : retype (.num (ofBits b) 8) s.bits = .ok (some (Expr.number (ofBits b) s.bits)) := by
    change (if ((8 : Int) == s.bits) then _ else _) = _
    rw [if_neg (by simpa using hlt.ne)]
    exact if_pos hlt
  rw [inferWidth, h, hfits]
  rfl

variable {r : Registers} {σ σ' : State} {y : Source s} {e' a : Expr}

theorem Denotes.value_eq (h : y.Denotes r e e') (σ : State) : value (σ.machine r) e = ofBits (y.read r σ) := by
  cases h with
  | place h => exact h.value_eq σ
  | number | extended => rw [value_num]; rfl
  | short => rw [value_num, read, ofBits_signExtend]

theorem Denotes.addend (h : y.Denotes r e e') : Addend s e e' := by
  cases h with
  | place h => exact .cell h.cell
  | number | extended => exact .number s.one_lt_bits.ne' (inferWidth_num _ _)
  | short v t ht hs => exact .number (by decide) (inferWidth_short hs _)

theorem Denotes.whole (h : y.Denotes r e e') : Whole s e' := by
  cases h with
  | place h => exact .cell h.cell
  | number | extended => exact .number (fits_ofBits s.bits_le _)
  | short =>
    rw [← ofBits_signExtend _ s]
    exact .number (fits_ofBits s.bits_le _)

theorem read_of_alike (y : Source s) (hr : Complete r) (h : State.Alike σ σ') : y.read r σ' = y.read r σ := by
  cases y with
  | place p =>
    obtain ⟨e, he⟩ := p.exists_denotes hr
    exact he.read_of_alike hr h
  | number | short => rfl

end Source

theorem Place.Denotes.eq_var {r : Registers} (hr : Complete r) {n : Fin 8} (h : (Place.register n : Place s).Denotes r e) :
    e = .var (s.var n) :=
  Except.ok.inj (h.toExpr_eq.symm.trans (Place.denotes_register hr n).toExpr_eq)

theorem Place.Denotes.exists_mem {r : Registers} {m : MemoryOperand} {hm : m.Encodable} {ht : m.type.bits = s.bits}
    (h : (Place.memory m hm ht : Place s).Denotes r e) : ∃ w a t n, e = .mem w a t n := by
  have hlocation : m.location r = .ok e := h.toExpr_eq
  obtain ⟨a, -, hlocation⟩ := of_bind_eq_ok hlocation
  unfold Expr.memory at hlocation
  split at hlocation
  · cases hlocation
    exact ⟨_, _, _, _, rfl⟩
  · cases hlocation

theorem Place.kind_register {p : Place s} (h : p.kind = .accumulator) : p = .register 0 := by
  cases p with
  | register n =>
    by_cases hn : n = 0
    · rw [hn]
    · rw [kind, if_neg hn] at h
      cases h
  | memory => cases h

theorem Place.kind_ne_short (q : Place s) : q.kind ≠ .short := by
  cases q with
  | register n =>
    change (if n = 0 then OperandKind.accumulator else .register) ≠ .short
    split <;> nofun
  | memory => nofun

namespace Arithmetic

variable {o : Arithmetic} {p : Place s} {y : Source s} {a e' : Expr} {r : Registers}

theorem kind_of_layout {k k' : OperandKind} (h : o.layout s k k' = .accumulator) : k = .accumulator := by
  by_contra hk
  cases k' with
  | short =>
    simp only [layout, hk, if_false] at h
    split at h <;> cases h
  | accumulator => simp [layout, hk] at h
  | register | memory | number => cases h

theorem layout_ne_short {k k' : OperandKind} (h : k' ≠ .short ∨ o.carries ∧ s = .word) : o.layout s k k' ≠ .short := by
  cases k' with
  | short =>
    have h := h.resolve_left fun hne => hne rfl
    simp only [layout, h, and_self, if_true]
    split <;> nofun
  | accumulator =>
    simp only [layout]
    split <;> nofun
  | register | memory | number => nofun

/-- Some expressions stand for the parameters of the chosen template. -/
def Binds (o : Arithmetic) (r : Registers) (p : Place s) (y : Source s) (a e e' : Expr) : Prop :=
  ∃ es, List.Forall₂ (fun o e => o.toExpr r = .ok e)
    (if 2 > ((o.layout s p.kind y.kind).parameters s (o.place s)).length then [y.operand] else [p.operand, y.operand]) es ∧
    (o.layout s p.kind y.kind).Takes s es a e e'

theorem binds_of_ne_short (hr : Complete r) (hp : p.Denotes r a) (hy : y.operand.toExpr r = .ok e) (he : Addend s e e')
    (hne : o.layout s p.kind y.kind ≠ .short) : o.Binds r p y a e e' := by
  unfold Binds
  by_cases hacc : o.layout s p.kind y.kind = .accumulator
  · obtain rfl := Place.kind_register (kind_of_layout hacc)
    obtain rfl := hp.eq_var hr
    rw [hacc]
    exact ⟨[e], .cons hy .nil, .accumulator he⟩
  · refine ⟨[a, e], ?_, ?_⟩ <;> cases hf : o.layout s p.kind y.kind
    all_goals first | exact absurd hf hacc | exact absurd hf hne | skip
    iterate 3 exact .cons hp.toExpr_eq (.cons hy .nil)
    · exact .number hp.cell he
    · exact .intoPlace hp.cell he
    · exact .intoRegister hp.cell he

section

variable (hr : Complete r) (h : o.admits s p.kind y.kind) (hp : p.Denotes r a)

include hr h hp

theorem exists_binds :
    ∃ e e', o.Binds r p y a e e' ∧ y.Denotes r e e' ∧ (e' = e ↔ ¬(o.carries ∧ s = .word ∧ y.kind = .short)) := by
  cases y with
  | place q =>
    obtain ⟨e, he⟩ := q.exists_denotes hr
    have hden : Source.Denotes r (.place q) e e := .place he
    have hkind := q.kind_ne_short
    exact ⟨e, e, binds_of_ne_short hr hp he.toExpr_eq hden.addend (layout_ne_short (.inl hkind)), hden,
      iff_of_true rfl fun h => hkind h.2.2⟩
  | number v t ht =>
    have hden : Source.Denotes r (.number v t ht) _ _ := .number v t ht
    exact ⟨_, _, binds_of_ne_short hr hp (toExpr_number ht (by cases s <;> decide) s.bits_le r) hden.addend nofun, hden,
      iff_of_true rfl nofun⟩
  | short v t ht =>
    have hs : s ≠ .byte := by
      rintro rfl
      simp [admits, Source.kind] at h
    have hy : (Source.short v t ht : Source s).operand.toExpr r = .ok (.num (ofBits (.ofInt 8 v)) 8) :=
      toExpr_number ht (by decide) (by decide) r
    by_cases hword : o.carries ∧ s = .word
    · have hden : Source.Denotes r (.short v t ht) _ _ := .short v t ht hs
      refine ⟨_, _, binds_of_ne_short hr hp hy hden.addend (layout_ne_short (.inr hword)), hden, ?_⟩
      obtain ⟨hc, rfl⟩ := hword
      exact iff_of_false nofun (not_not_intro ⟨hc, rfl, rfl⟩)
    · have hf : o.layout s p.kind (Source.short v t ht : Source s).kind = .short := if_neg hword
      refine ⟨_, _, ⟨[a, .num (ofBits (.ofInt 8 v)) 8], ?_, ?_⟩, .extended v t ht,
        iff_of_true rfl fun h => hword ⟨h.1, h.2.1⟩⟩
      · rw [hf]
        exact .cons hp.toExpr_eq (.cons hy .nil)
      · rw [hf]
        exact .short hs hp.cell _

theorem eq_or_differs (hy : y.Denotes r e e') : a = e ∨ e.equals a = false := by
  cases hy with
  | @place q _ hq =>
    cases p with
    | register n =>
      obtain rfl := hp.eq_var hr
      cases q with
      | register m =>
        obtain rfl := hq.eq_var hr
        by_cases hnm : n = m
        · exact .inl (by rw [hnm])
        · refine .inr ?_
          have hne : (s.var m).index ≠ (s.var n).index := by cases s <;> simp only [Size.var] <;> omega
          simp [equals, hne]
      | memory =>
        obtain ⟨_, _, _, _, rfl⟩ := hq.exists_mem
        exact .inr rfl
    | memory =>
      obtain ⟨_, _, _, _, rfl⟩ := hp.exists_mem
      cases q with
      | register m =>
        obtain rfl := hq.eq_var hr
        exact .inr rfl
      | memory => simp [admits, Place.kind, Source.kind] at h
  | number | extended | short => exact .inr (by cases hp.cell <;> rfl)

end

end Arithmetic

/-! ### Status flags -/

/-- The status flags that sums and differences set. -/
structure Status where
  carry : Bool
  overflow : Bool
  sign : Bool
  zero : Bool
  deriving DecidableEq

def State.status (r : Registers) (σ : State) : Status := ⟨σ.flag r CF, σ.flag r OF, σ.flag r SF, σ.flag r ZF⟩

namespace Arithmetic

variable {n : Nat}

/-- The exact result on numbers, given what the carry flag adds. -/
def exact (o : Arithmetic) (x y : Int) (c : Bool) : Int :=
  if o.subtracts then x - y - (o.carries && c).toNat else x + y + (o.carries && c).toNat

def result (o : Arithmetic) (x y : BitVec n) (c : Bool) : BitVec n :=
  if o.subtracts then x - y - BitVec.ofNat n (o.carries && c).toNat else x + y + BitVec.ofNat n (o.carries && c).toNat

/-- The status flags of IA-32: whether the result is wrong without signs, whether it is wrong with
signs, its sign, and whether it is zero. -/
def status (o : Arithmetic) (x y : BitVec n) (c : Bool) : Status where
  carry := decide (((o.result x y c).toNat : Int) ≠ o.exact x.toNat y.toNat c)
  overflow := decide ((o.result x y c).toInt ≠ o.exact x.toInt y.toInt c)
  sign := (o.result x y c).msb
  zero := o.result x y c == 0

/-- The status flags that are computed from the operands and the result. -/
def shown (o : Arithmetic) (x y t : BitVec n) : Status :=
  if o.subtracts then
    ⟨x.ult y, ((0#n).slt t && (x.msb && !y.msb)) || (t.msb && (!x.msb && y.msb)), t.msb, x == y⟩
  else
    ⟨(x.msb && y.msb) || (!t.msb && (x.msb || y.msb)), (!t.msb && (x.msb && y.msb)) || (t.msb && (!x.msb && !y.msb)),
      t.msb, t == 0⟩

section

variable (hn : n ≤ 64)

include hn

theorem ofBits_neg (b : BitVec n) : decide (ofBits b < 0) = b.msb := by
  rw [BitVec.msb_eq_toInt]
  refine decide_eq_decide.mpr ?_
  rw [Int64.lt_iff_toInt_lt, toInt_ofBits hn]
  rfl

theorem ofBits_pos (b : BitVec n) : decide (0 < ofBits b) = (0#n).slt b := by
  rw [BitVec.slt_eq_decide, BitVec.toInt_zero]
  refine decide_eq_decide.mpr ?_
  rw [Int64.lt_iff_toInt_lt, toInt_ofBits hn]
  rfl

theorem ofBits_beq (a b : BitVec n) : (ofBits a == ofBits b) = (a == b) := by
  rw [Bool.eq_iff_iff, beq_iff_eq, beq_iff_eq]
  exact ofBits_inj hn

theorem ofBits_ult (a b : BitVec n) : decide ((ofBits a).toUInt64 < (ofBits b).toUInt64) = a.ult b := by
  rw [BitVec.ult_eq_decide]
  exact decide_eq_decide.mpr (ofBits_lt_iff hn a b)

theorem ofBits_zero : ofBits (0#n) = 0 := by
  apply Int64.toInt_inj.mp
  rw [toInt_ofBits hn, BitVec.toInt_zero]
  rfl

end

section

variable {r : Registers} {σ : State} {o : Arithmetic} {ez ex ey : Expr} {x y t : BitVec s.bits}

theorem status_of_differenceFlags (ho : o.subtracts)
    (h : ∀ f ∈ differenceFlags ez ex ey, σ.flag r f.var = f.holds (ofBits x) (ofBits y) (ofBits t)) :
    σ.status r = o.shown x y t := by
  have hs := s.bits_le
  simp only [differenceFlags, List.forall_mem_cons, List.not_mem_nil, false_implies, implies_true, and_true,
    ofBits_neg hs, ofBits_pos hs, ofBits_beq hs, ofBits_ult hs] at h
  rw [State.status, shown, if_pos ho, h.1, h.2.1, h.2.2.1, h.2.2.2]

theorem status_eq_shown (h : ∀ f ∈ o.flags s ex ey, σ.flag r f.var = f.holds (ofBits x) (ofBits y) (ofBits t)) :
    σ.status r = o.shown x y t := by
  have hs := s.bits_le
  have hzero : (ofBits t == 0) = (t == 0) := by
    rw [← ofBits_zero hs]
    exact ofBits_beq hs t 0
  unfold flags at h
  split at h
  · next hsub => exact status_of_differenceFlags hsub h
  · next hsub =>
    simp only [sumFlags, List.forall_mem_cons, List.not_mem_nil, false_implies, implies_true, and_true,
      ofBits_neg hs, hzero] at h
    rw [State.status, shown, if_neg hsub, h.1, h.2.1, h.2.2.1, h.2.2.2]

end

end Arithmetic

/-! ### The templates that are read and chosen -/

namespace Arithmetic

theorem name_group : ∀ b c : Bool, ∀ s ∈ Size.all,
    repeatable.any (fun r => ((⟨b, c⟩ : Arithmetic).mnemonic s).toUpper.startsWith r) = false ∧
      chapters.findIdx (·.names.contains ((⟨b, c⟩ : Arithmetic).mnemonic s).toUpper) = if c then 1 else 0 := by
  decide +kernel

theorem chosen_layout : ∀ b c : Bool, ∀ s ∈ Size.all, ∀ k ∈ OperandKind.all, ∀ k' ∈ OperandKind.all, ∀ summarize : Bool,
    admits ⟨b, c⟩ s k k' → (best (score summarize ⟨"", default, [k.operand s, k'.operand s], 0, {}⟩)
      (templates ⟨b, c⟩ s)).map contentOf = some (contentOf (template ⟨b, c⟩ s (layout ⟨b, c⟩ s k k') "")) := by
  decide +kernel

theorem reads_addition : ∀ b : Bool, ∀ s ∈ Size.all,
    Architecture.groupOf (Chapter.read base [additionFlags.toList, subtractionFlags.toList, addition.toList])
      (mnemonic ⟨b, false⟩ s).toUpper.toList = templates ⟨b, false⟩ s := by
  rw [base_eq]
  unfold additionFlags subtractionFlags addition
  rw [String.toList_ofList, String.toList_ofList, String.toList_ofList]
  decide +kernel

theorem reads_carry : ∀ b : Bool, ∀ s ∈ Size.all,
    Architecture.groupOf (Chapter.read base [additionFlags.toList, subtractionFlags.toList, FlowRecovery.IA32.carry.toList])
      (mnemonic ⟨b, true⟩ s).toUpper.toList = templates ⟨b, true⟩ s := by
  rw [base_eq]
  unfold additionFlags subtractionFlags FlowRecovery.IA32.carry
  rw [String.toList_ofList, String.toList_ofList, String.toList_ofList]
  decide +kernel

end Arithmetic

/-! ### Lifting -/

theorem exists_template {i : Instruction} {p : Place s} {y : Source s} {name : String} {ts : List Template}
    {content : List Var × Option (List Stmt)} {summarize : Bool} (hname : i.name.toUpper = name)
    (hplain : i.directive? architecture = none) (hos : i.operands = [p.operand, y.operand])
    (hrepeat : repeatable.any (fun r => name.startsWith r) = false) (hgroup : architecture.group? name = some ts)
    (hlength : 2 ≤ ts.length)
    (hchosen : (best (score summarize ⟨"", default, [p.kind.operand s, y.kind.operand s], 0, {}⟩) ts).map contentOf =
      some content) : ∃ t, i.template? architecture summarize = some t ∧ contentOf t = content := by
  have hspec : i.specName = name := by
    simp [specName, hname, hrepeat]
  have hscore : i.score summarize =
      score summarize ⟨"", default, [p.kind.operand s, y.kind.operand s], 0, {}⟩ := by
    rw [← score_congr p.ranks_kind y.ranks_kind]
    funext t
    unfold score
    rw [hos]
  obtain ⟨t, ht, hcontent⟩ := Option.map_eq_some_iff.mp hchosen
  refine ⟨t, ?_, hcontent⟩
  unfold template?
  rw [hplain]
  simp only [hspec, hgroup]
  rcases ts with _ | ⟨_, _ | ⟨_, _⟩⟩
  · simp at hlength
  · simp at hlength
  · rw [← ht, ← hscore]

theorem OperandKind.mem_all (k : OperandKind) : k ∈ all := by cases k <;> decide

namespace Arithmetic

variable {o : Arithmetic} {p : Place s} {y : Source s} {i : Instruction} {summarize : Bool} {address : Int64}

/-- The instruction is the operation on these operands, and no directive. -/
structure Encodes (i : Instruction) (o : Arithmetic) (p : Place s) (y : Source s) : Prop where
  name : i.name = o.mnemonic s
  operands : i.operands = [p.operand, y.operand]
  admits : o.admits s p.kind y.kind
  plain : i.directive? architecture = none

theorem Encodes.exists_template (h : Encodes i o p y) (summarize : Bool) :
    ∃ t, i.template? architecture summarize = some t ∧
      contentOf t = contentOf (o.template s (o.layout s p.kind y.kind) "") := by
  obtain ⟨b, c⟩ := o
  obtain ⟨hrepeat, hchapter⟩ := name_group b c s s.mem_all
  have hgroup : architecture.group? (mnemonic ⟨b, c⟩ s).toUpper = some (templates ⟨b, c⟩ s) := by
    rw [group?_eq, hchapter]
    cases c with
    | false => exact congrArg some (reads_addition b s s.mem_all)
    | true => exact congrArg some (reads_carry b s s.mem_all)
  exact IA32.exists_template (congrArg String.toUpper h.name) h.plain h.operands hrepeat hgroup
    (Nat.le_trans (two_le_layouts _ s) (Nat.le_of_eq (List.length_map _).symm))
    (chosen_layout b c s s.mem_all p.kind p.kind.mem_all y.kind y.kind.mem_all summarize h.admits)

/-- **Lifting.** If the sum of its template computes the number `g`, the instruction is lifted, and
its statements write the number to the first operand and set the flags by the first operand before,
the second operand after, and the number. -/
theorem Encodes.exists_lift {a e' : Expr} {g : State → BitVec s.bits} (h : Encodes i o p y)
    (hp : p.Denotes architecture.vars a) (hy : y.Denotes architecture.vars e e')
    (hbinds : o.Binds architecture.vars p y a e e')
    (hg : ∀ σ σ', State.Alike σ σ' → (∀ x ∈ flagVars, σ'.flag architecture.vars x = σ.flag architecture.vars x) → g σ' = g σ)
    (hv : ∀ {c : Context} {x z b b' : Expr}, Operates c s x z a e e' → Start s x a b b' →
      Computes architecture.vars False c s (Saved architecture.vars s a) a (o.sum s b z) g) (summarize : Bool) (address : Int64) :
    ∃ ss, i.lift architecture summarize address = .ok ss ∧ ∀ σ : State, ∃ σ', σ.execute architecture.vars ss = some σ' ∧
      State.Alike (p.write architecture.vars σ (g σ)) σ' ∧ p.read architecture.vars σ' = g σ ∧
      σ'.status architecture.vars = o.shown (p.read architecture.vars σ) (y.read architecture.vars σ') (g σ) := by
  obtain ⟨t, ht, hcontent⟩ := h.exists_template summarize
  obtain ⟨es, hes, htakes⟩ := hbinds
  have hq : o.place s = modrm ∨ o.place s = s.reg := by
    unfold place
    split
    · exact .inr rfl
    · exact .inl rfl
  have hvars (x z : Expr) : (o.flags s x z).map Flag.var = flagVars := by
    unfold flags
    split <;> rfl
  have hdistinct (x z : Expr) : (o.flags s x z).Pairwise fun f g => f.var.index ≠ g.var.index := by
    have hpairs : flagVars.Pairwise fun x y => x.index ≠ y.index := by decide
    rwa [← hvars x z, List.pairwise_map] at hpairs
  have hput (σ : State) (v : Int64) : g (σ.put architecture.vars (.var s.scratch) v) = g σ := by
    refine hg _ _ (.put_low (complete_architecture.whole_scratch s) s.scratch_lt σ v) fun x hx => ?_
    exact State.flag_put_of_ne (complete_architecture.whole_scratch s) (complete_architecture.whole_flag hx)
      (ne_scratch_of_mem_flagVars hx s).symm σ v
  obtain ⟨ss, hss, hrun⟩ := lift_operation ht (by rw [h.operands]; rfl)
    (by rw [h.operands]; rfl) hes htakes hq address hcontent
    (fun next => by
      obtain ⟨b', hb⟩ := (o.layout s p.kind y.kind).start_cases s (o.place s) a
      exact hv (htakes.operates hq next) hb)
    hput
    (fun next => by
      unfold flags
      split
      · exact (htakes.operates hq next).compares.lifts_differenceFlags (.inr hy.addend.scratch_equals)
      · exact (htakes.operates hq next).compares.lifts_sumFlags) (hdistinct _ _)
  refine ⟨ss, hss, fun σ => ?_⟩
  obtain ⟨σ', hσ', halike, hflags⟩ := hrun σ
  rw [hp.put_eq] at halike
  simp only [hp.value_eq, hy.value_eq] at hflags
  have hread := hp.read_of_alike complete_architecture halike
  exact ⟨σ', hσ', halike, hread.trans (hp.read_write _), status_eq_shown hflags⟩

end Arithmetic

end FlowRecovery.IA32
