import FlowRecovery.Proofs.IA32.Addresses
import FlowRecovery.Proofs.IA32.Decoding

/-!
# How addresses are encoded

An operand in memory is written as a mode byte, a byte for scale, index and base if the mode byte
asks for one, and a displacement of no, one or four bytes. `Addressing` says what such bytes stand
for, in terms of their bits alone.

* `Addressing.read_eq`: what is read from the bytes, and how many of them.
* `Addressing.read_address`: the expression for the operand has the address that the bytes stand
  for.
* `Instruction.size_of_decode`: how long instructions of the floating point unit and media shifts
  are. A mode byte `bf` is taken for one that names a register, and the shifts have no mode byte at
  all.
-/

namespace FlowRecovery.IA32

open FlowRecovery.Expr Word Reading BitVec List

/-- The fields of a byte: two bits, three bits and three bits. -/
def fields (b : UInt8) : ModeByte :=
  ⟨(b.toBitVec.extractLsb' 6 2).toFin, (b.toBitVec.extractLsb' 3 3).toFin, (b.toBitVec.extractLsb' 0 3).toFin⟩

theorem ofByte_eq_fields (b : UInt8) : ModeByte.ofByte b = fields b := by
  have hnat : b.toBitVec.toNat = b.toNat := rfl
  simp [ModeByte.ofByte, fields, hnat, Nat.shiftRight_eq_div_pow]

/-- The byte at a position; zero where the code has ended. -/
def codeByte (code : ByteArray) (i : Nat) : UInt8 := code.data[i]?.getD 0

/-- An operand in memory: its mode byte, and the code with the position behind this byte. -/
structure Addressing where
  modeByte : UInt8
  code : ByteArray
  start : Nat

namespace Addressing

variable (p : Addressing)

def mode : Fin 4 := (fields p.modeByte).mode

def hasSib : Bool := (fields p.modeByte).rm = 4

/-- The fields for scale, index and base. -/
def sib : ModeByte := fields (codeByte p.code p.start)

def base : Fin 8 := if p.hasSib then p.sib.rm else (fields p.modeByte).rm

def index? : Option (Fin 8) := if p.hasSib ∧ p.sib.reg ≠ 4 then some p.sib.reg else none

def isBaseless : Bool := p.mode = 0 ∧ p.base = 5

def sibSize : Nat := if p.hasSib then 1 else 0

def displacementSize : Nat := if p.isBaseless ∨ p.mode = 2 then 4 else if p.mode = 1 then 1 else 0

/-- How many bytes follow the mode byte. -/
def size : Nat := p.sibSize + p.displacementSize

def displacement : BitVec 32 :=
  let byte (k : Nat) : BitVec 8 := (codeByte p.code (p.start + p.sibSize + k)).toBitVec
  if p.displacementSize = 4 then byte 3 ++ byte 2 ++ byte 1 ++ byte 0
  else if p.displacementSize = 1 then (byte 0).signExtend 32
  else 0

def address (r : Registers) (σ : State) : BitVec 32 :=
  (if p.isBaseless then 0 else σ.dword r p.base) + (p.index?.map (σ.dword r)).getD 0 <<< p.sib.mode.val + p.displacement

def operand (type : DataType) (segment : Option (Fin 6)) : MemoryOperand :=
  ⟨type, segment, if p.isBaseless then none else some p.base, p.index?,
    if p.hasSib then twoTo p.sib.mode.val else 1, p.displacement.toInt⟩

end Addressing

/-! ### Reading -/

variable {code : ByteArray} {i j : Nat}

theorem byteAt_eq (code : ByteArray) (i : Nat) :
    byteAt code i = if i < code.size then .ok (codeByte code i) else .error (some .outsideArray) := by
  unfold byteAt codeByte
  split
  · next h => rw [show code.data[i]? = some code[i] from Array.getElem?_eq_getElem h, Option.getD_some]
  · rfl

def digits (code : ByteArray) (i : Nat) : Nat → Nat
  | 0 => 0
  | n + 1 => (codeByte code i).toNat + 256 * digits code (i + 1) n

theorem Reading.number_eq (code : ByteArray) (n i : Nat) : Reading.number code n i =
      if i + n ≤ max i code.size then .ok (digits code i n, i + n) else .error (some .outsideArray) := by
  induction n generalizing i with
  | zero => exact (if_pos (le_max_left _ _)).symm
  | succ n ih =>
    change ((byteAt code i).map (fun b => (b, i + 1)) >>= fun p => number code n p.2 >>= fun q =>
      .ok (p.1.toNat + 256 * q.1, q.2)) = _
    rw [byteAt_eq]
    by_cases hi : i < code.size
    · have hrange : i + 1 + n ≤ max (i + 1) code.size ↔ i + (n + 1) ≤ max i code.size := by omega
      rw [if_pos hi, show i + (n + 1) = i + 1 + n by omega] at *
      change (Reading.number code n (i + 1) >>= _) = _
      rw [ih]
      simp only [hrange]
      split <;> rfl
    · rw [if_neg hi, if_neg (by omega)]
      rfl

theorem signed_eq (g : Nat → Int) (n i : Nat) : (do return g (← Reading.number code n) : Reading Int) i =
      if i + n ≤ max i code.size then .ok (g (digits code i n), i + n) else .error (some .outsideArray) := by
  change (number code n i >>= fun q => .ok (g q.1, q.2)) = _
  rw [Reading.number_eq]
  split <;> rfl

theorem toNat_append_eq {m k : Nat} (x : BitVec m) (y : BitVec k) : (x ++ y).toNat = x.toNat * 2 ^ k + y.toNat := by
  rw [toNat_append, ← Nat.shiftLeft_add_eq_or_of_lt y.isLt, Nat.shiftLeft_eq]

namespace Addressing

variable (p : Addressing) {f : Frame} {e : Extent} {t : DataType}

theorem readRegisters_eq : MemoryOperand.readRegisters p.code (fields p.modeByte) p.start =
      if p.start + p.sibSize ≤ max p.start p.code.size
      then .ok ((p.base, p.index?, if p.hasSib then twoTo p.sib.mode.val else 1), p.start + p.sibSize)
      else .error (some .outsideArray) := by
  unfold MemoryOperand.readRegisters base index? sibSize
  by_cases h : (fields p.modeByte).rm = 4
  · have hsib : p.hasSib := by simpa [hasSib] using h
    simp only [if_pos h, hsib, if_true, true_and, ite_not]
    change ((byteAt p.code p.start).map (fun b => (b, p.start + 1)) >>= fun q => .ok (((ModeByte.ofByte q.1).rm,
      if (ModeByte.ofByte q.1).reg = 4 then none else some (ModeByte.ofByte q.1).reg,
      twoTo (ModeByte.ofByte q.1).mode.val), q.2)) = _
    have hrange : p.start + 1 ≤ max p.start p.code.size ↔ p.start < p.code.size := by omega
    rw [byteAt_eq]
    simp only [hrange, ofByte_eq_fields]
    split <;> rfl
  · have hsib : p.hasSib = false := by simpa [hasSib] using h
    simp only [if_neg h, hsib]
    exact (if_pos (le_max_left _ _)).symm

theorem toInt_displacement : p.displacement.toInt =
      Int.bmod (digits p.code (p.start + p.sibSize) p.displacementSize) (2 ^ (8 * p.displacementSize)) := by
  have hbyte (k : Nat) : (codeByte p.code k).toBitVec.toNat = (codeByte p.code k).toNat := rfl
  have hsize : p.displacementSize = 4 ∨ p.displacementSize = 1 ∨ p.displacementSize = 0 := by
    unfold displacementSize
    split_ifs <;> simp
  unfold displacement
  rcases hsize with h | h | h
  · rw [h, if_pos rfl, toInt_eq_toNat_bmod, toNat_append_eq, toNat_append_eq, toNat_append_eq]
    simp only [hbyte, digits, Nat.add_assoc, Nat.reduceAdd, Nat.add_zero]
    congr 2
    omega
  · rw [h, if_neg (by decide), if_pos rfl, toInt_signExtend_of_le (by decide), toInt_eq_toNat_bmod]
    rfl
  · rw [h, if_neg (by decide), if_neg (by decide)]
    rfl

theorem readDisplacement_eq : MemoryOperand.readDisplacement p.code (fields p.modeByte) p.base (p.start + p.sibSize) =
      if p.start + p.sibSize + p.displacementSize ≤ max (p.start + p.sibSize) p.code.size
      then .ok (p.displacement.toInt, p.start + p.sibSize + p.displacementSize)
      else .error (some .outsideArray) := by
  change (if p.isBaseless ∨ p.mode = 2 then signed32 p.code
    else if p.mode = 1 then signed8 p.code else pure 0 : Reading Int) _ = _
  rw [toInt_displacement]
  unfold displacementSize
  split
  · exact signed_eq (Int.bmod · 4294967296) 4 _
  split
  · exact signed_eq (Int.bmod · 256) 1 _
  · exact (if_pos (le_max_left _ _)).symm

/-- **What is read.** The operand is read if its bytes are there, and no other bytes are used up. -/
theorem read_eq (hf : f.modeByte = ModeByte.ofByte p.modeByte) : MemoryOperand.read p.code f e p.start =
      if p.start + p.size ≤ max p.start p.code.size
      then (typeOf e f.wide (p.start + p.size)).map fun q => (p.operand q.1 f.modifiers.segment?, q.2)
      else .error (some .outsideArray) := by
  rw [ofByte_eq_fields] at hf
  change (MemoryOperand.readRegisters p.code f.modeByte p.start >>= fun q =>
    MemoryOperand.readDisplacement p.code f.modeByte q.1.1 q.2 >>= fun d => typeOf e f.wide d.2 >>= fun t =>
      .ok (({ type := t.1, segment := f.modifiers.segment?,
              base := if MemoryOperand.isBaseless f.modeByte q.1.1 then none else some q.1.1, index := q.1.2.1,
              scale := q.1.2.2, displacement := d.1 } : MemoryOperand), t.2)) = _
  rw [hf, readRegisters_eq, size, ← Nat.add_assoc]
  by_cases hle : p.start + p.sibSize ≤ max p.start p.code.size
  · have hrange : p.start + p.sibSize + p.displacementSize ≤ max (p.start + p.sibSize) p.code.size ↔
        p.start + p.sibSize + p.displacementSize ≤ max p.start p.code.size := by omega
    rw [if_pos hle]
    change (MemoryOperand.readDisplacement p.code (fields p.modeByte) p.base (p.start + p.sibSize) >>= _) = _
    rw [readDisplacement_eq]
    simp only [hrange]
    split
    · unfold typeOf
      cases e.type? f.wide <;> rfl
    · rfl
  · rw [if_neg hle, if_neg (by omega)]
    rfl

theorem encodable_operand (t : DataType) (g : Option (Fin 6)) : (p.operand t g).Encodable where
  scale := by
    have hscale (s : Fin 4) : twoTo s.val = 1 ∨ twoTo s.val = 2 ∨ twoTo s.val = 4 ∨ twoTo s.val = 8 := by
      revert s
      decide
    unfold operand
    dsimp only
    split
    · exact hscale _
    · exact .inl rfl
  displacement := ⟨le_toInt p.displacement, toInt_lt⟩

theorem effective_operand (r : Registers) (t : DataType) (g : Option (Fin 6)) (σ : State) :
    (p.operand t g).effective r σ = p.address r σ := by
  have hbase : ((p.operand t g).base.map (σ.dword r)).getD 0 = if p.isBaseless then 0 else σ.dword r p.base := by
    change ((if p.isBaseless then none else some p.base).map (σ.dword r)).getD 0 = _
    split <;> rfl
  have hindex : (p.index?.map (σ.dword r)).getD 0 * .ofNat 32 (if p.hasSib then twoTo p.sib.mode.val else 1) =
      (p.index?.map (σ.dword r)).getD 0 <<< p.sib.mode.val := by
    have htwo : .ofNat 32 (twoTo p.sib.mode.val) = twoPow 32 p.sib.mode.val :=
      eq_of_toNat_eq ((toNat_ofNat _ _).trans (toNat_twoPow _ _).symm)
    unfold index?
    cases p.hasSib with
    | true => rw [if_pos rfl, htwo, shiftLeft_eq_mul_twoPow]
    | false => simp
  rw [MemoryOperand.effective, hbase, address]
  exact congrArg₂ (· + ·) (congrArg _ hindex) (ofInt_toInt)

/-- **Effective addresses.** Where the bytes of an operand in memory are there, exactly these are
read. What is made of the operand is memory at an address expression of 32 bits, whose value is the
address that the bytes stand for. -/
theorem read_address (hf : f.modeByte = ModeByte.ofByte p.modeByte) (hmode : p.mode ≠ 3)
    (ht : e.type? f.wide = some t) (hbytes : p.start + p.size ≤ p.code.size) :
    ∃ m a, Slot.read p.code f (.generalOrMemory e) p.start = .ok (.memory m, p.start + p.size) ∧
      (Operand.memory m).toExpr architecture.vars =
        .ok (.mem t.bits a (f.modifiers.segment?.map fun n => .var (segmentVar n)) 0) ∧
      a.width = .ok 32 ∧
      ∀ σ : State, value (σ.machine architecture.vars) a = ofBits (p.address architecture.vars σ) := by
  obtain ⟨a, ha, haddress, hlow⟩ := MemoryOperand.exists_address complete_architecture
    (p.encodable_operand t f.modifiers.segment?)
  have hvalue (σ : State) :
      value (σ.machine architecture.vars) a = ofBits (p.address architecture.vars σ) := by
    rw [← p.effective_operand _ t f.modifiers.segment?, ← hlow]
    exact (haddress.fits _ σ).symm
  refine ⟨p.operand t f.modifiers.segment?, a, ?_, ?_, haddress.width_eq, hvalue⟩
  · have hmemory : f.modeByte.mode ≠ 3 := by rwa [hf, ofByte_eq_fields]
    change (if f.modeByte.mode = 3 then _ else _ : Reading Operand) p.start = _
    rw [if_neg hmemory]
    refine bind_eq_ok.mpr ⟨_, _, ?_, rfl⟩
    rw [p.read_eq hf, if_pos (by omega), typeOf, ht]
    rfl
  · have hpos : t.bits > 0 := by
      generalize f.wide = wide at ht
      cases e <;> cases wide <;> cases ht <;> decide
    have hsegment (n : Fin 6) : (Register.segment n).variableIn architecture.vars = segmentVar n :=
      complete_architecture.segment n
    change (MemoryOperand.location _ _) = _
    unfold MemoryOperand.location
    rw [ha]
    simp only [hsegment]
    exact if_pos hpos

/-- Four times `ecx` is added to `ebx`, and eight is subtracted. -/
theorem read_address_scaled :
    ∃ m a, Slot.read ⟨#[0x8b, 0xf8, 0x90]⟩ ⟨ModeByte.ofByte 0x44, {}⟩ (.generalOrMemory .sized) 0 = .ok (.memory m, 2) ∧
      (Operand.memory m).toExpr architecture.vars = .ok (.mem 32 a none 0) ∧ a.width = .ok 32 ∧
      ∀ σ : State, value (σ.machine architecture.vars) a = ofBits
        (σ.dword architecture.vars 3 + σ.dword architecture.vars 1 <<< 2 + 0xfffffff8#32) := by
  let p : Addressing := ⟨0x44, ⟨#[0x8b, 0xf8, 0x90]⟩, 0⟩
  have hsize : p.start + p.size = 2 := by decide
  have hbase : p.isBaseless = false ∧ p.base = 3 := by decide
  have hindex : p.index? = some 1 ∧ p.sib.mode = 2 := by decide
  have hdisplacement : p.displacement = 0xfffffff8#32 := by decide
  obtain ⟨m, a, hread, hexpr, hwidth, hvalue⟩ := @read_address p ⟨ModeByte.ofByte 0x44, {}⟩ .sized .int32 rfl
    (by decide) rfl (by decide)
  refine ⟨m, a, hsize ▸ hread, hexpr, hwidth, fun σ => ?_⟩
  rw [hvalue, address, hbase.1, hbase.2, hindex.1, hindex.2, hdisplacement]
  rfl

end Addressing

/-! ### Lengths -/

variable {start : Nat} {first b : UInt8} {ins : Instruction} {s : Selection}

theorem eq_of_byteAt {b' : UInt8} (h : byteAt code i = .ok b) (h' : byteAt code i = .ok b') : b = b' :=
  Except.ok.inj (h.symm.trans h')

def coprocessorBytes : List UInt8 := [0xd8, 0xd9, 0xda, 0xdb, 0xdc, 0xdd, 0xde, 0xdf]

theorem mem_coprocessorBytes (hfirst : 0xd8 ≤ first) (hfirst' : first ≤ 0xdf) : first ∈ coprocessorBytes := by
  simp only [coprocessorBytes, mem_cons, not_mem_nil, or_false]
  grind

set_option maxRecDepth 4000 in
theorem opcode_coprocessor : ∀ first ∈ coprocessorBytes, ({} : Modifiers).add? first = none ∧ first ≠ 0x0f ∧
      OpcodeMap.oneByte[first.toNat]?.join = some .coprocessor := by
  decide

def floatExtents : List Extent :=
  [.byte, .sized, .word, .double, .quad, .floatSingle, .floatDouble, .floatExtended]

theorem slots_floatMemory : ∀ row ∈ OpcodeMap.floatMemory, ∀ f ∈ row,
    f.all fun f => floatExtents.any fun e => f.slots == [.generalOrMemory e] := by
  decide

theorem slots_of_floatForm {f : Form} (h : Opcode.floatForm first b = .ok f) (hb : b < 0xbf) :
    ∃ e, f.slots = [.generalOrMemory e] := by
  unfold Opcode.floatForm at h
  dsimp only at h
  rw [if_pos hb] at h
  split at h
  · cases h
  split at h
  · next g hg =>
    cases h
    obtain ⟨row, hrow, hf⟩ := Option.bind_eq_some_iff.mp (Option.join_eq_some_iff.mp hg)
    have hslots := slots_floatMemory row (mem_of_getElem? hrow) _ (mem_of_getElem? hf)
    obtain ⟨e, -, he⟩ := any_eq_true.mp hslots
    exact ⟨e, beq_iff_eq.mp he⟩
  · cases h

set_option maxRecDepth 4000 in
/-- With the mode byte `bf`, the forms for registers are looked up. -/
theorem slots_of_last_mode : ∀ first ∈ coprocessorBytes, ((Opcode.floatForm first 0xbf).toOption.map Form.slots).all
      ([[], [.floatTop, .floatRegister], [.floatRegister, .floatTop]].contains ·) := by
  decide

theorem selection_of_read {o : Opcode} {m : Modifiers} (h : (Selection.read code start).run start = .ok (s, i))
    (hb : byteAt code start = .ok first) (hadd : ({} : Modifiers).add? first = none)
    (ho : Opcode.read code {} start = .ok ((o, m), j)) : o.select code m start j = .ok (s, i) := by
  obtain ⟨m', k, hm, h⟩ := bind_eq_ok.mp h
  cases hm.symm.trans ((Modifiers.read_eq hb).trans (by rw [hadd]))
  obtain ⟨⟨o', m''⟩, k, ho', h⟩ := bind_eq_ok.mp h
  cases ho'.symm.trans ho
  exact h

theorem mode_of_readMode {f : Form} {left m : ModeByte} (h : (f.readMode code left).run i = .ok (m, j))
    (hb : byteAt code i = .ok b) : (m, j) = if f.hasMode then (ModeByte.ofByte b, i + 1) else (left, i) := by
  change (if f.hasMode then (do return ModeByte.ofByte (← byte code)) else pure left : Reading ModeByte) i = _ at h
  split at h
  · next hf =>
    obtain ⟨x, k, hx, hlast⟩ := bind_eq_ok.mp h
    obtain ⟨hx', rfl⟩ := byte_eq_ok.mp hx
    cases hlast
    rw [if_pos hf, eq_of_byteAt hb hx']
  · next hf =>
    cases h
    rw [if_neg hf]

theorem last_of_mode (hmode : (fields b).mode ≠ 3) (hb : ¬b < 0xbf) : b = 0xbf := by
  have hlt := b.toNat_lt
  rw [UInt8.lt_iff_toNat_lt] at hb
  change ¬b.toNat < 191 at hb
  have hmode' : b.toNat / 64 % 4 ≠ 3 := fun h => hmode (Fin.ext ((congrArg (·.mode.val) (ofByte_eq_fields b)).symm.trans h))
  exact UInt8.toNat_inj.mp (show b.toNat = 191 by omega)

theorem size_of_coprocessor (h : Instruction.read code start = .ok ins) (hb : byteAt code start = .ok first)
    (hfirst : 0xd8 ≤ first) (hfirst' : first ≤ 0xdf) (hb' : byteAt code (start + 1) = .ok b)
    (hmode : (fields b).mode ≠ 3) : ins.size = if b < 0xbf then 2 + (Addressing.mk b code (start + 2)).size else 2 := by
  have hmem := mem_coprocessorBytes hfirst hfirst'
  obtain ⟨hadd, hne, hopcode⟩ := opcode_coprocessor first hmem
  obtain ⟨s, i, m, k, j, hselect, hread, hoperands⟩ := Decoders.read_eq_ok.mp h
  have ho : Opcode.read code {} start = .ok ((.coprocessor, {}), start + 1) := by
    refine bind_eq_ok.mpr ⟨first, start + 1, byte_eq_ok.mpr ⟨hb, rfl⟩, ?_⟩
    rw [if_neg hne]
    exact bind_eq_ok.mpr ⟨_, _, orElse_eq_ok.mpr ⟨hopcode, rfl⟩, rfl⟩
  obtain ⟨f, l, hf, hlast⟩ := bind_eq_ok.mp (selection_of_read hselect hb hadd ho)
  cases hlast
  obtain ⟨x, l, hpeek, hf⟩ := bind_eq_ok.mp hf
  obtain ⟨hx, rfl⟩ := peek_eq_ok.mp hpeek
  obtain ⟨y, l, hlift, hf⟩ := bind_eq_ok.mp hf
  obtain ⟨hy, rfl⟩ := lift_eq_ok.mp hlift
  obtain ⟨hform, rfl⟩ := lift_eq_ok.mp hf
  cases eq_of_byteAt hb' hx
  cases eq_of_byteAt hb hy
  have hread := mode_of_readMode hread hb'
  rw [Selection.size_of_readOperands hoperands]
  obtain ⟨os, l, hos, hlast⟩ := bind_eq_ok.mp hoperands
  cases hlast
  dsimp only at hos
  split
  · next hlt =>
    obtain ⟨e, he⟩ := slots_of_floatForm hform hlt
    have hhas : f.hasMode := by
      rw [Form.hasMode, he]
      rfl
    rw [if_pos hhas] at hread
    cases hread
    rw [he, mapM_cons] at hos
    obtain ⟨o, k, hfirst, hrest⟩ := bind_eq_ok.mp hos
    cases hrest
    change (if (ModeByte.ofByte b).mode = 3 then _ else _ : Reading Operand) (start + 2) = _ at hfirst
    rw [ofByte_eq_fields, if_neg hmode] at hfirst
    obtain ⟨mem, k, hmem, hlast⟩ := bind_eq_ok.mp hfirst
    cases hlast
    rw [(Addressing.mk b code (start + 2)).read_eq (ofByte_eq_fields b).symm, typeOf] at hmem
    split at hmem
    case isFalse => cases hmem
    cases ht : e.type? _ with
    | none =>
      rw [ht] at hmem
      cases hmem
    | some t =>
      rw [ht] at hmem
      cases hmem
      change max 2 (start + 2 + _ - start) = _
      omega
  · next hge =>
    obtain rfl := last_of_mode hmode hge
    have hslots := slots_of_last_mode first hmem
    rw [hform] at hslots
    have hk : j = k := by
      rcases (by simpa [Except.toOption] using hslots) with hs | hs | hs <;> rw [hs] at hos <;> cases hos <;> rfl
    change max 2 (j - start) = 2
    split at hread <;> cases hread <;> omega

theorem slots_of_shift (hb : b = 0x71 ∨ b = 0x72 ∨ b = 0x73) : ∃ fs, Opcode.selectTwoBytes {} b = (some (.group fs), {}) ∧
      ∀ f ∈ fs, f.all fun f => f.slots == [.media, .immediate .byte] := by
  rcases hb with rfl | rfl | rfl
  · exact ⟨OpcodeMap.mediaShifts "w" OpcodeMap.P, by decide +kernel, by decide⟩
  · exact ⟨OpcodeMap.mediaShifts "d" OpcodeMap.P, by decide +kernel, by decide⟩
  · exact ⟨OpcodeMap.mediaShiftQuads, by decide +kernel, by decide⟩

theorem shift_of_read {second : UInt8} (h : Instruction.read code start = .ok ins) (hb : byteAt code start = .ok 0x0f)
    (hb' : byteAt code (start + 1) = .ok second) (hsecond : second = 0x71 ∨ second = 0x72 ∨ second = 0x73)
    (hb'' : byteAt code (start + 2) = .ok b) :
    ins.size = 3 ∧ ins.operands = [.register (.mmx 0), .immediate (Int.bmod b.toNat 256) .uint8] := by
  obtain ⟨fs, hfs, hslots⟩ := slots_of_shift hsecond
  obtain ⟨s, i, m, k, j, hselect, hread, hoperands⟩ := Decoders.read_eq_ok.mp h
  have ho : Opcode.read code {} start = .ok ((.group fs, {}), start + 2) := by
    refine bind_eq_ok.mpr ⟨0x0f, start + 1, byte_eq_ok.mpr ⟨hb, rfl⟩, ?_⟩
    refine bind_eq_ok.mpr ⟨second, start + 2, byte_eq_ok.mpr ⟨hb', rfl⟩, ?_⟩
    rw [hfs]
    rfl
  obtain ⟨f, l, hf, hlast⟩ := bind_eq_ok.mp (selection_of_read hselect hb (by decide) ho)
  cases hlast
  obtain ⟨x, l, hpeek, hf⟩ := bind_eq_ok.mp hf
  obtain ⟨-, rfl⟩ := peek_eq_ok.mp hpeek
  obtain ⟨hform, rfl⟩ := orElse_eq_ok.mp hf
  have hslots : f.slots = [.media, .immediate .byte] :=
    beq_iff_eq.mp (hslots _ (mem_of_getElem? (Option.join_eq_some_iff.mp hform)))
  have hhas : ¬f.hasMode := by
    rw [Form.hasMode, hslots]
    decide
  have hread := mode_of_readMode hread hb''
  rw [if_neg hhas] at hread
  cases hread
  obtain ⟨os, l, hos, hlast⟩ := bind_eq_ok.mp hoperands
  cases hlast
  dsimp only at hos
  rw [hslots, mapM_cons, mapM_cons] at hos
  have hnumber : Slot.read code ⟨.none, {}⟩ (.immediate .byte) (start + 2) =
      .ok (.immediate (Int.bmod b.toNat 256) .uint8, start + 3) :=
    bind_eq_ok.mpr ⟨_, _, bind_eq_ok.mpr ⟨_, _, bind_eq_ok.mpr ⟨_, _, byte_eq_ok.mpr ⟨hb'', rfl⟩, rfl⟩, rfl⟩, rfl⟩
  cases hos.symm.trans (bind_eq_ok.mpr ⟨_, _, rfl, bind_eq_ok.mpr ⟨_, _, bind_eq_ok.mpr ⟨_, _, hnumber, rfl⟩, rfl⟩⟩)
  refine ⟨?_, rfl⟩
  change max 0 (start + 3 - start) = 3
  omega

/-- **Lengths.** An instruction of the floating point unit that names an operand in memory is as
long as this operand asks for, except where its mode byte is `bf`. A media shift by a number has
three bytes, whatever its mode byte is, and the mode byte is the number. -/
theorem Instruction.size_of_decode (h : Instruction.decode code start = some ins) :
    (∀ first b : UInt8, byteAt code start = .ok first → 0xd8 ≤ first → first ≤ 0xdf →
      byteAt code (start + 1) = .ok b → (fields b).mode ≠ 3 →
        (ins.size = 2 + (Addressing.mk b code (start + 2)).size ↔ b ≠ 0xbf)) ∧
    (∀ second b : UInt8, byteAt code start = .ok 0x0f → second = 0x71 ∨ second = 0x72 ∨ second = 0x73 →
      byteAt code (start + 1) = .ok second → byteAt code (start + 2) = .ok b →
        ins.size = 3 ∧ ins.operands = [.register (.mmx 0), .immediate (Int.bmod b.toNat 256) .uint8]) := by
  have hread : Instruction.read code start = .ok ins := by
    unfold Instruction.decode at h
    cases hr : Instruction.read code start with
    | error e =>
      rw [hr] at h
      cases h
    | ok i =>
      rw [hr] at h
      exact congrArg Except.ok (Option.some.inj h)
  refine ⟨fun first b hb hfirst hfirst' hb' hmode => ?_, fun second b hb hsecond hb' hb'' =>
    shift_of_read hread hb hb' hsecond hb''⟩
  rw [size_of_coprocessor hread hb hfirst hfirst' hb' hmode]
  split
  · next hlt => exact ⟨fun _ => by rintro rfl; exact absurd hlt (by decide), fun _ => rfl⟩
  · next hge =>
    obtain rfl := last_of_mode hmode hge
    have hsize : (Addressing.mk 0xbf code (start + 2)).size = 4 := by
      have hsib : (Addressing.mk 0xbf code (start + 2)).hasSib = false :=
        show decide ((fields 0xbf).rm = 4) = false by decide
      have hmode : (Addressing.mk 0xbf code (start + 2)).mode = 2 := show (fields 0xbf).mode = 2 by decide
      simp [Addressing.size, Addressing.sibSize, Addressing.displacementSize, hsib, hmode]
    rw [hsize]
    decide

/-- A division by a number in memory and a shift by five. -/
theorem Instruction.size_of_examples : ∃ i i' : Instruction,
    Instruction.decode ⟨#[0xd8, 0xbe, 4, 3, 2, 1]⟩ 0 = some i ∧ Instruction.decode ⟨#[0x0f, 0x71, 0xd0, 5]⟩ 0 = some i' ∧
      i.size = 6 ∧ i'.size = 3 ∧ i'.operands = [.register (.mmx 0), .immediate (-48) .uint8] := by
  have h : (Instruction.decode ⟨#[0xd8, 0xbe, 4, 3, 2, 1]⟩ 0).isSome := by decide +kernel
  have h' : (Instruction.decode ⟨#[0x0f, 0x71, 0xd0, 5]⟩ 0).isSome := by decide +kernel
  obtain ⟨i, hi⟩ := Option.isSome_iff_exists.mp h
  obtain ⟨i', hi'⟩ := Option.isSome_iff_exists.mp h'
  have hsize := (size_of_decode hi).1 0xd8 0xbe rfl (by decide) (by decide) rfl (by decide)
  obtain ⟨hsize', hoperands⟩ := (size_of_decode hi').2 0x71 0xd0 rfl (.inl rfl) rfl rfl
  exact ⟨i, i', hi, hi', (hsize.mpr (by decide)).trans (by decide), hsize', hoperands.trans (by decide)⟩

/-- With the mode byte `bf`, the four bytes of the displacement are not read. -/
theorem Instruction.size_of_last_mode : ∃ i, Instruction.decode ⟨#[0xd8, 0xbf, 4, 3, 2, 1]⟩ 0 = some i ∧ i.size = 2 ∧
      i.operands = [.register (.float 0), .register (.float 7)] := by
  decide +kernel

end FlowRecovery.IA32
