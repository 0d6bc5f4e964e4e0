import FlowRecovery.Proofs.IA32.Addresses

/-!
# Operands in registers and memory

A `Place` is a register or a memory location that an instruction reads and writes; a `Source` is a
place or a number that it only reads. `Place.read`, `Place.write` and `Source.read` say on states
what they are. On expressions, places are cells (`Cell`), and `Place.exists_denotes` says that the
expression of a place has its content as value and is written by what writes the place.

Registers below the general ones are flags and scratch registers. States that differ in these only
are `Alike`, and no operand tells them apart.
-/

namespace FlowRecovery.IA32

open FlowRecovery.Expr Word State

variable {c : Context} {s : Size} {e x : Expr} {n : Nat} {r : Registers} {σ σ' τ : State} {v : Int64}

/-! ### States that operands do not tell apart -/

/-- The states differ in flags and scratch registers only. -/
structure State.Alike (σ σ' : State) : Prop where
  file : ∀ i, 37 ≤ i → ∀ j, σ'.file i j = σ.file i j
  base : σ'.base = σ.base
  bytes : σ'.bytes = σ.bytes

namespace State.Alike

theorem refl (σ : State) : Alike σ σ := ⟨fun _ _ _ => rfl, rfl, rfl⟩

theorem trans (h : Alike σ σ') (h' : Alike σ' τ) : Alike σ τ :=
  ⟨fun i hi j => (h'.file i hi j).trans (h.file i hi j), h'.base.trans h.base, h'.bytes.trans h.bytes⟩

theorem read_eq (h : Alike σ σ') {y : Var} (hy : 37 ≤ (r.place y).1) : r.read σ'.file y = r.read σ.file y := by
  apply BitVec.eq_of_getLsbD_eq
  intro k hk
  rw [Registers.getLsbD_read hk, Registers.getLsbD_read hk]
  exact h.file _ hy _

theorem keeps_register (h : Alike σ σ') (hr : Complete r) (s : Size) (n : Fin 8) : Keeps r σ σ' (.var (s.var n)) :=
  keeps_var (h.read_eq (hr.le_place s n))

theorem keeps_segmentVar (h : Alike σ σ') (hr : Complete r) (k : Fin 6) : Keeps r σ σ' (.var (segmentVar k)) :=
  keeps_var (h.read_eq (by rw [hr.place_segment]; omega))

theorem put_low {y : Var} (hy : r.parent? y = none) (hlow : y.index < 37) (σ : State) (v : Int64) :
    Alike σ (σ.put r (.var y) v) where
  file i hi j := by
    have hplace : (r.place y).1 = y.index := congrArg Prod.fst (Registers.place_whole hy)
    refine if_neg fun hbit => ?_
    have := hbit.1
    omega
  base := rfl
  bytes := rfl

theorem put_var (h : Alike σ σ') (y : Var) (v : Int64) : Alike (σ.put r (.var y) v) (σ'.put r (.var y) v) where
  file i hi j := by
    change (if r.Bit y i j then _ else σ'.file i j) = if r.Bit y i j then _ else σ.file i j
    rw [h.file i hi j]
  base := h.base
  bytes := h.bytes

end State.Alike

/-! ### Cells -/

/-- The expressions of places: a register or a memory location of the size. -/
inductive Cell (s : Size) : Expr → Prop where
  | register (n : Fin 8) : Cell s (.var (s.var n))
  | memory {a : Expr} (ha : Address a) (t : Option (Fin 6)) : Cell s (.mem s.bits a (segmentOf t) 0)

theorem Address.keeps {a : Expr} (h : ∀ n, State.Keeps r σ σ' (.var (Size.dword.var n))) (ha : Address a) :
    State.Keeps r σ σ' a := by
  have hpart (p : Expr) (hp : Part p) : State.Keeps r σ σ' p := by
    cases hp with
    | register n => exact h n
    | number d => exact keeps_num r σ σ' (ofBits d) 32
    | scaled n hk =>
      refine keeps_bits (keeps_op ?_) (keeps_num ..) (keeps_num ..)
      simpa using ⟨h n, keeps_num ..⟩
  cases ha with
  | part hp => exact hpart _ hp
  | sum hparts => exact keeps_op fun p hp => hpart p (hparts p hp)

namespace Cell

variable (h : Cell s e)

include h

theorem fixed (hc : Open c) : Fixed c s.bits e := by
  cases h with
  | register n => exact (s.has_var n).width_eq ▸ fixed_var hc (s.var_mem n)
  | memory ha t => exact fixed_mem hc s.bits_pos ha t

theorem shape : (∃ v, e = .var v) ∨ ∃ w a t n, e = .mem w a t n := by
  cases h with
  | register n => exact .inl ⟨_, rfl⟩
  | memory ha t => exact .inr ⟨_, _, _, _, rfl⟩

theorem isNumber_eq : e.isNumber = false := by
  cases h <;> rfl

theorem target {p : Var} (hp : Becomes c n (.var p) e) (hn : n ≤ 2000)
    (hforget : c.forgetAll (.singleton p) = c) : Target c s.bits (.var p) e where
  evaluate_eq := hp.evaluate hn
  forgets := ⟨_, rfl, hforget⟩
  shape := h.shape
  inferWidth_eq := (h.fixed open_empty).inferWidth_eq
  again := (h.fixed open_empty).becomes.evaluate (by decide)

/-! #### Values of cells -/

theorem fits (σ : State) : Fits s.bits (value (σ.machine r) e) := by
  have hbits : s.bits ≤ 64 := s.bits_le
  cases h with
  | register n =>
    have hwidth := (s.has_var n).width_eq
    rw [value_var (by omega) (by omega), ← hwidth]
    have hfits := fits_ofBits (by omega) (r.read σ.file (s.var n))
    rwa [Int.toNat_of_nonneg (by omega)] at hfits
  | memory ha t =>
    rw [value_mem (by omega) (by omega)]
    exact fits_ofBits hbits _

omit h in
theorem keeps_segment (h : ∀ k, State.Keeps r σ σ' (.var (segmentVar k))) (t : Option (Fin 6)) :
    ∀ x ∈ segmentOf t, State.Keeps r σ σ' x := by
  cases t with
  | none => nofun
  | some k =>
    rintro x ⟨⟩
    exact h k

theorem keeps_of_alike (hr : Complete r) (halike : State.Alike σ σ') : State.Keeps r σ σ' e := by
  cases h with
  | register n => exact halike.keeps_register hr s n
  | memory ha t =>
    exact keeps_mem halike.base halike.bytes (ha.keeps (halike.keeps_register hr .dword))
      (keeps_segment (halike.keeps_segmentVar hr) t)

theorem value_put (hv : Fits s.bits v) : value ((σ.put r e v).machine r) e = v := by
  have hbits : s.bits ≤ 64 := s.bits_le
  cases h with
  | register n =>
    have hwidth := (s.has_var n).width_eq
    exact value_put_var (by omega) (by omega) (hwidth ▸ hv)
  | memory ha t =>
    exact value_put_mem (by omega) (by omega) hv (ha.keeps fun _ => keeps_put_mem)
      (keeps_segment (fun _ => keeps_put_mem) t)

theorem put_value (σ : State) : σ.put r e (value (σ.machine r) e) = σ := by
  have hbits : s.bits ≤ 64 := s.bits_le
  cases h with
  | register n =>
    have hwidth := (s.has_var n).width_eq
    exact put_var_value (by omega) (by omega)
  | memory ha t => exact put_mem_value (by omega) (by omega) (by cases s <;> rfl)

theorem alike_put (hr : Complete r) (halike : State.Alike σ σ') (v : Int64) :
    State.Alike (σ.put r e v) (σ'.put r e v) := by
  cases h with
  | register n => exact halike.put_var _ v
  | @memory a ha t =>
    have hlocate : σ'.locate r a (segmentOf t) = σ.locate r a (segmentOf t) :=
      locate_eq halike.base (ha.keeps (halike.keeps_register hr .dword))
        (keeps_segment (halike.keeps_segmentVar hr) t)
    refine ⟨halike.file, halike.base, ?_⟩
    funext b
    change (if _ then _ else σ'.bytes b) = if _ then _ else σ.bytes b
    rw [hlocate, halike.bytes]

end Cell

/-! ### Places -/

/-- A register or a memory location of the size. -/
inductive Place (s : Size) where
  | register (n : Fin 8)
  | memory (m : MemoryOperand) (encodable : m.Encodable) (type : m.type.bits = s.bits)

namespace Place

def operand : Place s → Operand
  | register n => .register (s.register n)
  | memory m _ _ => .memory m

def read (r : Registers) (σ : State) : Place s → BitVec s.bits
  | register n => s.shown r σ.file n
  | memory m _ _ => σ.load (m.linear r σ) s.bits

def write (r : Registers) (σ : State) : Place s → BitVec s.bits → State
  | register n, b => { σ with file := r.write σ.file (s.var n) (b.setWidth (s.var n).width.toNat) }
  | memory m _ _, b => σ.store (m.linear r σ) b

/-- The expression `e` stands for the place. -/
structure Denotes (r : Registers) (p : Place s) (e : Expr) : Prop where
  toExpr_eq : p.operand.toExpr r = .ok e
  cell : Cell s e
  value_eq (σ : State) : value (σ.machine r) e = ofBits (p.read r σ)
  put_eq (σ : State) (b : BitVec s.bits) : σ.put r e (ofBits b) = p.write r σ b

theorem denotes_register (hr : Complete r) (n : Fin 8) : (register n : Place s).Denotes r (.var (s.var n)) where
  toExpr_eq := congrArg (fun x => Except.ok (Expr.var x)) (hr.register s n)
  cell := .register n
  value_eq σ := by
    have hwidth := (s.has_var n).width_eq
    have hbits := s.bits_le
    rw [value_var (by omega) (by omega)]
    cases s <;> exact congrArg ofBits (BitVec.setWidth_eq _).symm
  put_eq σ b := by
    have hlow : low (s.var n).width.toNat (ofBits b) = b.setWidth (s.var n).width.toNat := by
      cases s <;> exact (low_ofBits (by decide) b).trans (BitVec.setWidth_eq b).symm
    exact congrArg (fun b' => mk (r.write σ.file (s.var n) b') σ.base σ.bytes) hlow

theorem exists_denotes_memory (hr : Complete r) {m : MemoryOperand} (hm : m.Encodable) (ht : m.type.bits = s.bits) :
    ∃ e, (memory m hm ht : Place s).Denotes r e := by
  obtain ⟨a, ha, haddress, hlow⟩ := MemoryOperand.exists_address hr hm
  have hsegment : m.segment.map (fun n => .var ((Register.segment n).variableIn r)) = segmentOf m.segment :=
    Option.map_congr fun n _ => congrArg var (hr.segment n)
  have hlocate (σ : State) : σ.locate r a (segmentOf m.segment) = m.linear r σ := by
    have hvalue : segmentValue (σ.machine r) (segmentOf m.segment) =
        m.segment.map fun n => ofBits (r.read σ.file (segmentVar n)) := by
      cases m.segment with
      | none => rw [segmentOf, Option.map_none, segmentValue, Option.map_none]
      | some n =>
        have hwidth : (segmentVar n).width = 16 := rfl
        rw [segmentOf, Option.map_some, segmentValue, Option.map_some,
          value_var (by rw [hwidth]; decide) (by rw [hwidth]; decide)]
    rw [locate, MemoryOperand.linear, hvalue, hlow]
  have hbits : s.bits ≤ 64 := s.bits_le
  refine ⟨.mem s.bits a (segmentOf m.segment) 0, ?_, .memory haddress _, fun σ => ?_, fun σ b => ?_⟩
  · change (m.address r >>= fun a => Expr.memory m.type.bits a _ 0) = _
    rw [ha, hsegment, ht]
    exact if_pos s.bits_pos
  · rw [value_mem (by omega) (by omega), hlocate]
    rfl
  · have hword : low (s.bits : Int).toNat (ofBits b) = b := low_ofBits hbits b
    change σ.store (σ.locate r a (segmentOf m.segment)) (low (s.bits : Int).toNat (ofBits b)) = _
    rw [hword, hlocate]
    rfl

theorem exists_denotes (hr : Complete r) (p : Place s) : ∃ e, p.Denotes r e := by
  cases p with
  | register n => exact ⟨_, denotes_register hr n⟩
  | memory m hm ht => exact exists_denotes_memory hr hm ht

namespace Denotes

variable {p : Place s}

theorem read_of_alike (h : p.Denotes r e) (hr : Complete r) (halike : State.Alike σ σ') : p.read r σ' = p.read r σ := by
  have hkeeps := h.cell.keeps_of_alike hr halike
  unfold State.Keeps at hkeeps
  rw [h.value_eq, h.value_eq] at hkeeps
  exact (ofBits_inj s.bits_le).mp hkeeps

theorem read_write (h : p.Denotes r e) (b : BitVec s.bits) : p.read r (p.write r σ b) = b := by
  have hvalue := h.cell.value_put (σ := σ) (r := r) (fits_ofBits s.bits_le b)
  rw [h.put_eq, h.value_eq] at hvalue
  exact (ofBits_inj s.bits_le).mp hvalue

end Denotes

end Place

/-! ### Sources -/

/-- What an instruction takes as its second operand: the content of a place, or a number that is
written in the instruction. A number of 8 bits is extended with its sign. -/
inductive Source (s : Size) where
  | place (p : Place s)
  | number (v : Int) (t : DataType) (type : t.bits = s.bits)
  | short (v : Int) (t : DataType) (type : t.bits = 8)

namespace Source

def operand : Source s → Operand
  | place p => p.operand
  | number v t _ => .immediate v t
  | short v t _ => .immediate v t

def read (r : Registers) (σ : State) : Source s → BitVec s.bits
  | place p => p.read r σ
  | number v _ _ => BitVec.ofInt s.bits v
  | short v _ _ => (BitVec.ofInt 8 v).signExtend s.bits

end Source

end FlowRecovery.IA32
