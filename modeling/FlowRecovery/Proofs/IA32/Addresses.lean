import FlowRecovery.Proofs.Expr.Formulas
import FlowRecovery.Proofs.IA32.Execution

/-!
# Addresses of memory operands

The address of a memory operand is a sum of registers, scaled registers and a number (`Address`).
Neither evaluation nor the search for widths changes such a sum, nor a register, a number, or memory
at such an address (`Fixed`).

`MemoryOperand.exists_address`: the address is an expression of 32 bits, whose value is base plus
scaled index plus displacement modulo 2³² (`MemoryOperand.effective`).
-/

namespace FlowRecovery.IA32

open FlowRecovery.Expr Word

variable {c : Context} {s : Size} {a e : Expr} {as : List Expr} {x : Var} {w : Int}

/-! ### Variables -/

def segmentVar (n : Fin 6) : Var := ⟨61 + n, ["es", "cs", "ss", "ds", "fs", "gs"].get n, 16⟩

def flagVars : List Var := [CF, OF, SF, ZF]

def operandVars : List Var :=
  flagVars ++ [Size.byte, .word, .dword].flatMap (fun s => s.scratch :: (List.finRange 8).map s.var) ++
    (List.finRange 6).map segmentVar

theorem operandVars_inj : ∀ x ∈ operandVars, ∀ y ∈ operandVars, x.index = y.index → x = y := by
  decide

theorem index_of_mem_operandVars : ∀ x ∈ operandVars, 0 < x.index ∧ x.index < 88 := by
  decide

theorem Size.scratch_mem (s : Size) : s.scratch ∈ operandVars := by
  cases s <;> decide

theorem Size.var_mem (s : Size) (n : Fin 8) : s.var n ∈ operandVars := by
  have hmem : s ∈ [Size.byte, .word, .dword] := by cases s <;> decide
  refine List.mem_append_left _ (List.mem_append_right _ (List.mem_flatMap.mpr ⟨s, hmem, List.mem_cons_of_mem _ ?_⟩))
  exact List.mem_map_of_mem (List.mem_finRange n)

theorem mem_operandVars_of_flag (hx : x ∈ flagVars) : x ∈ operandVars :=
  List.mem_append_left _ (List.mem_append_left _ hx)

theorem segmentVar_mem (n : Fin 6) : segmentVar n ∈ operandVars :=
  List.mem_append_right _ (List.mem_map_of_mem (List.mem_finRange n))

def vocabulary : Vocabulary where
  declared x := x ∈ operandVars
  width w := 0 < w ∧ w < 2147483648
  sum _ := True
  rich := True
  memory := True
  declared_inj hx hy h := operandVars_inj _ hx _ hy h
  width_one := by decide
  width_pos h := h.1
  width_lt h := h.2

theorem segment_variables : ∀ n : Fin 6, (Register.segment n).variableIn (machineOf base).vars = segmentVar n ∧
      (machineOf base).vars.parent? (segmentVar n) = none := by
  rw [base_eq]
  decide

theorem vars_withGroups (arch : Architecture) (groups : List (String × List Template)) :
    ({ arch with groups := groups } : Architecture).vars = arch.vars := rfl

theorem vars_architecture : architecture.vars = (machineOf base).vars := vars_withGroups (machineOf base) _

theorem segment_architecture (n : Fin 6) : (Register.segment n).variableIn architecture.vars = segmentVar n ∧
    architecture.vars.parent? (segmentVar n) = none := by
  rw [vars_architecture]
  exact segment_variables n

/-- What is known about the registers of a machine. -/
structure Complete (r : Registers) : Prop where
  register (s : Size) (n : Fin 8) : (s.register n).variableIn r = s.var n
  segment (n : Fin 6) : (Register.segment n).variableIn r = segmentVar n
  le_place (s : Size) (n : Fin 8) : 37 ≤ (r.place (s.var n)).1
  place_segment (n : Fin 6) : (r.place (segmentVar n)).1 = 61 + n
  wholes : ∀ x ∈ [Size.byte.scratch, Size.word.scratch, Size.dword.scratch, CF, OF, SF, ZF], r.parent? x = none

theorem complete_architecture : Complete architecture.vars where
  register s n := (standard_architecture.general s (by cases s <;> decide) n).1
  segment n := (segment_architecture n).1
  le_place s n := standard_architecture.le_place s n
  place_segment n := congrArg Prod.fst (Registers.place_whole (segment_architecture n).2)
  wholes := standard_architecture.wholes

/-- Nothing is known about registers and memory. -/
structure Open (c : Context) : Prop where
  free : ∀ x ∈ operandVars, c.Free x
  assignment_mem (w : Int) (a : Expr) (s : Option Expr) (n : Int) : c.assignment (.mem w a s n) = .mem w a s n

theorem open_empty : Open .empty := ⟨fun x _ => Context.free_empty x, fun _ _ _ _ => rfl⟩

/-! ### Addresses -/

/-- What addresses are sums of: registers, scaled registers and numbers. -/
inductive Part : Expr → Prop where
  | register (n : Fin 8) : Part (.var (Size.dword.var n))
  | scaled (n : Fin 8) {k : Int64} (hk : k = 2 ∨ k = 4 ∨ k = 8) :
      Part (.bits (.op .mul [.var (Size.dword.var n), .num k 32]) (.num 0 8) (.num 31 8))
  | number (d : BitVec 32) : Part (.num (ofBits d) 32)

/-- The expressions of addresses. -/
inductive Address : Expr → Prop where
  | part {a : Expr} (h : Part a) : Address a
  | sum {as : List Expr} (h : ∀ a ∈ as, Part a) (hlen : as.length ≤ 3) (hrigid : Rigid 32 as) : Address (.op .plus as)

/-- An operand of `w` bits that no pass of lifting changes. -/
structure Fixed (c : Context) (w : Int) (e : Expr) : Prop where
  becomes : Becomes c 6 e e
  width_eq : e.width = .ok w
  inferWidth_eq : e.inferWidth w = .ok e
  plain : Plain e
  flat (o : Operator) : operandsOf o e = none
  declared : Declared vocabulary.declared e
  weight_le : e.weight ≤ 32
  equals_self : e.equals e = true

theorem fixed_var (hc : Open c) (hx : x ∈ operandVars) : Fixed c x.width (.var x) where
  becomes := (hc.free x hx).becomes.mono (by decide)
  width_eq := rfl
  inferWidth_eq := inferWidth_var x
  plain := plain_var x
  flat _ := rfl
  declared := hx
  weight_le := by
    change 1 ≤ 32
    decide
  equals_self := by simp [equals]

theorem fixed_num (c : Context) (v : Int64) (w : Int) : Fixed c w (.num v w) where
  becomes := (Becomes.num v w).mono (by decide)
  width_eq := rfl
  inferWidth_eq := inferWidth_num v w
  plain := plain_num v w
  flat _ := rfl
  declared := trivial
  weight_le := by
    change 1 ≤ 32
    decide
  equals_self := by simp [equals]

namespace Part

theorem becomes (hc : Open c) (h : Part e) : Becomes c 3 e e := by
  cases h with
  | register n => exact (hc.free _ (Size.var_mem _ n)).becomes.mono (by decide)
  | number d => exact (Becomes.num (ofBits d) 32).mono (by decide)
  | @scaled n k hk =>
    have hvar := (hc.free _ (Size.var_mem .dword n)).becomes
    have hmul : Becomes c 2 (.op .mul [.var (Size.dword.var n), .num k 32])
        (.op .mul [.var (Size.dword.var n), .num k 32]) := by
      have hwidth : operationWidth .mul [.var (Size.dword.var n), .num k 32]
          (widths [.var (Size.dword.var n), .num k 32]) = .ok 64 := rfl
      refine .done (by simp) (.cons hvar (.cons (.num k 32) .nil)) hwidth (by decide) hwidth ?_
      rcases hk with rfl | rfl | rfl <;> rfl
    intro d
    change (evaluateTo c (d + 2) _ >>= fun x => _) = _
    rw [hmul d]
    rfl

section

variable (h : Part e)

include h

theorem width_eq : e.width = .ok 32 := by
  cases h with
  | register n => rfl
  | number d => rfl
  | scaled n hk => rfl

theorem inferWidth_eq : e.inferWidth 32 = .ok e := by
  cases h with
  | register n => exact inferWidth_var (Size.dword.var n)
  | number d => exact inferWidth_num (ofBits d) 32
  | scaled n hk => rfl

theorem declared : Declared vocabulary.declared e := by
  cases h with
  | register n => exact Size.var_mem .dword n
  | number d => trivial
  | scaled n hk => exact ⟨⟨Size.var_mem .dword n, trivial, trivial⟩, trivial, trivial⟩

theorem weight_le : e.weight ≤ 6 := by
  cases h with
  | register n | number d =>
    change 1 ≤ 6
    decide
  | scaled n hk =>
    change 6 ≤ 6
    decide

theorem equals_self : e.equals e := by
  cases h <;> simp [equals, equalOperands, sharedNondet]

theorem flat : operandsOf .plus e = none := by
  cases h <;> rfl

theorem ne_neg (y : Expr) (ys : List Expr) : e ≠ .op .neg (y :: ys) := by
  cases h <;> nofun

end

end Part

namespace Address

theorem becomes (hc : Open c) (h : Address e) : Becomes c 4 e e := by
  cases h with
  | part h => exact (h.becomes hc).mono (by decide)
  | sum h _ hrigid => exact .sum (List.forall₂_same.mpr fun a ha => (h a ha).becomes hc) hrigid.width_eq hrigid

section

variable (h : Address e)

include h

theorem width_eq : e.width = .ok 32 := by
  cases h with
  | part h => exact h.width_eq
  | sum _ _ hrigid => exact hrigid.width_eq

theorem inferWidth_eq : e.inferWidth 32 = .ok e := by
  cases h with
  | part h => exact h.inferWidth_eq
  | @sum as h _ hrigid =>
    rw [inferWidth_op (List.forall₂_same.mpr fun a ha => (h a ha).inferWidth_eq) (by simp)]
    exact hrigid.operation_eq

theorem declared : Declared vocabulary.declared e := by
  cases h with
  | part h => exact h.declared
  | sum h => exact allDeclared_iff.mpr fun a ha => (h a ha).declared

theorem weight_le : e.weight ≤ 22 := by
  cases h with
  | part h => exact Nat.le_trans h.weight_le (by decide)
  | @sum as h hlen hrigid =>
    have hloads : loads .plus as ≤ 7 * as.length := by
      clear hlen hrigid
      induction as with
      | nil => exact Nat.le_refl 0
      | cons a as ih =>
        obtain ⟨ha, has⟩ := List.forall_mem_cons.mp h
        have hburden := burden_le_one .plus a
        have hweight := ha.weight_le
        have hrest := ih has
        rw [loads, List.length_cons]
        omega
    rw [weight]
    omega

theorem equals_self : e.equals e := by
  cases h with
  | part h => exact h.equals_self
  | @sum as h hlen hrigid =>
    have hall : equalOperands as as := by
      clear hlen hrigid
      induction as with
      | nil => rfl
      | cons a as ih =>
        obtain ⟨ha, has⟩ := List.forall_mem_cons.mp h
        simp [equalOperands, ha.equals_self, ih has]
    simp [equals, hall]

end

end Address

def segmentOf (t : Option (Fin 6)) : Option Expr := t.map fun n => .var (segmentVar n)

theorem fixed_mem (hc : Open c) (hw : 0 < w) (ha : Address a) (t : Option (Fin 6)) :
    Fixed c w (.mem w a (segmentOf t) 0) where
  becomes d := by
    have hmemory : memory w a (segmentOf t) 0 = .ok (.mem w a (segmentOf t) 0) := if_pos hw
    rw [evaluateTo, hc.assignment_mem]
    by_cases hkeeps : c.keeps a
    · simp only [hkeeps, if_true]
      exact congrArg Except.ok (hc.assignment_mem _ _ _ _)
    · have haddress : evaluateTo c (d + 5) a = .ok a := (ha.becomes hc).mono (by decide) d
      simp only [hkeeps, haddress, hmemory, ok_bind, Bool.false_eq_true, if_false]
      exact congrArg Except.ok (hc.assignment_mem _ _ _ _)
  width_eq := rfl
  inferWidth_eq := inferWidth_mem ha.inferWidth_eq (if_pos hw)
  plain := by
    unfold Plain
    rw [simplifyOnce]
    all_goals simp
  flat _ := rfl
  declared := by
    refine ⟨ha.declared, ?_⟩
    cases t with
    | none => trivial
    | some n => exact segmentVar_mem n
  weight_le := by
    have := ha.weight_le
    rw [weight]
    omega
  equals_self := by
    cases t with
    | none => simp [equals, ha.equals_self, segmentOf, equalSegments]
    | some n => simp [equals, ha.equals_self, segmentOf, equalSegments, sharedNondet]

/-! ### Effective addresses -/

section

variable {r : Registers} {m : MemoryOperand}

def State.dword (r : Registers) (σ : State) (n : Fin 8) : BitVec 32 := Size.dword.shown r σ.file n

namespace MemoryOperand

/-- The operand is one that machine code can have. -/
structure Encodable (m : MemoryOperand) : Prop where
  scale : m.scale = 1 ∨ m.scale = 2 ∨ m.scale = 4 ∨ m.scale = 8
  displacement : -2147483648 ≤ m.displacement ∧ m.displacement < 2147483648

def effective (r : Registers) (m : MemoryOperand) (σ : State) : BitVec 32 :=
  (m.base.map (σ.dword r)).getD 0 + (m.index.map (σ.dword r)).getD 0 * BitVec.ofNat 32 m.scale +
    BitVec.ofInt 32 m.displacement

def linear (r : Registers) (m : MemoryOperand) (σ : State) : BitVec 32 :=
  σ.base (m.segment.map fun n => ofBits (r.read σ.file (segmentVar n))) + m.effective r σ

end MemoryOperand

theorem value_register (r : Registers) (σ : State) (n : Fin 8) :
    value (σ.machine r) (.var (Size.dword.var n)) = ofBits (σ.dword r n) := by
  have hwidth : (Size.dword.var n).width = 32 := rfl
  rw [State.value_var (by rw [hwidth]; decide) (by rw [hwidth]; decide)]
  exact congrArg ofBits (BitVec.setWidth_eq _).symm

theorem low_register (r : Registers) (σ : State) (n : Fin 8) :
    low 32 (value (σ.machine r) (.var (Size.dword.var n))) = σ.dword r n := by
  rw [value_register, low_ofBits (by decide)]

/-- The product has 64 bits, of which the lower half is taken. -/
theorem value_scaled (r : Registers) (σ : State) (n : Fin 8) (k : Int64) : value (σ.machine r)
      (.bits (.op .mul [.var (Size.dword.var n), .num k 32]) (.num 0 8) (.num 31 8)) =
    ofBits (σ.dword r n * low 32 k) := by
  have hmul : value (σ.machine r) (.op .mul [.var (Size.dword.var n), .num k 32]) =
      value (σ.machine r) (.var (Size.dword.var n)) * k := by
    have hwidth : (op .mul [.var (Size.dword.var n), .num k 32]).width = .ok 64 := rfl
    rw [value_op _ hwidth, List.map_cons (f := value _), List.map_singleton, value_num]
    exact wrap_of_le (by decide) _
  have hfirst : low32 0 = 0 := by decide
  have hlast : low32 31 = 31 := by decide
  have hextract (v : Int64) : ((extract 0 31 v).value?).getD 0 = ofBits (v.toBitVec.extractLsb' 0 32) := by
    have hsettle := @settle_extract 0 31 (by decide) (by decide) (by decide) (by decide) v
    have hwidth : wrap32 (31 - 0 + 1) = 32 := by decide
    rw [extract, hwidth, number_eq]
    exact hsettle
  rw [value, hmul, value_num, value_num, hfirst, hlast, hextract, ← low_register, ← low_mul (by decide)]
  exact congrArg ofBits (BitVec.setWidth_eq_extractLsb' (by decide)).symm

theorem Part.fits (h : Part e) (r : Registers) (σ : State) : Fits 32 (value (σ.machine r) e) := by
  cases h with
  | register n =>
    rw [value_register]
    exact fits_ofBits (by decide) _
  | scaled n =>
    rw [value_scaled]
    exact fits_ofBits (by decide) _
  | number d =>
    rw [value_num]
    exact fits_ofBits (by decide) d

/-- An address is a number of 32 bits: its value repeats the highest of them. -/
theorem Address.fits (h : Address e) (r : Registers) (σ : State) :
    Fits 32 (value (σ.machine r) e) := by
  cases h with
  | part h => exact h.fits r σ
  | @sum as _ _ hrigid =>
    rw [value_op _ (show (op .plus as).width = .ok 32 from hrigid.width_eq)]
    exact fits_wrap 32 _

theorem rigid_of_parts (h : ∀ a ∈ as, Part a ∧ a.isZero = false) (hlen : 2 ≤ as.length)
    (hnumbers : (as.filterMap value?).length ≤ 1) : Rigid 32 as where
  pos := by decide
  admissible := .inr rfl
  two_le := hlen
  width_eq := by
    refine operationWidth_of_forall rfl (by decide) ?_ fun a ha => (h a ha).1.width_eq
    rintro rfl
    cases hlen
  isZero_eq a ha := (h a ha).2
  flat a ha := (h a ha).1.flat
  numbers := hnumbers
  cancels y ys hmem := absurd rfl ((h _ hmem).1.ne_neg y ys)

theorem low_sum (r : Registers) (σ : State) (h : Rigid 32 as) : low 32 (value (σ.machine r) (.op .plus as)) =
      (as.map fun a => low 32 (value (σ.machine r) a)).foldr (· + ·) 0 := by
  rw [value_op _ (show (op .plus as).width = .ok 32 from h.width_eq)]
  change low 32 (wrap 32 (Operator.plus.total _)) = _
  have hmap : (as.map fun a => low 32 (value (σ.machine r) a)) =
      (as.map (value (σ.machine r))).map (low 32) := by rw [List.map_map]; rfl
  rw [hmap]
  exact (@low_wrap 32 (by decide) _).trans (low_total .plus (by decide) _)

namespace MemoryOperand

theorem exists_scaledIndex (hr : Complete r) (hm : m.Encodable) (n : Fin 8) :
    ∃ e, m.scaledIndex r n = .ok e ∧ Part e ∧ e.value? = none ∧
      ∀ σ : State, low 32 (value (σ.machine r) e) = σ.dword r n * .ofNat 32 m.scale := by
  have hvar : (Register.dword n).variableIn r = Size.dword.var n := hr.register .dword n
  have hbuild (k : Int64) (hk : k = 2 ∨ k = 4 ∨ k = 8) :
      operation .mul [.var (Size.dword.var n), .number k 32] =
        .ok (.op .mul [.var (Size.dword.var n), .num k 32]) := by
    rcases hk with rfl | rfl | rfl <;> rfl
  unfold scaledIndex
  rw [hvar]
  rcases hm.scale with hs | hs
  · refine ⟨.var (Size.dword.var n), ?_, .register n, rfl, fun σ => ?_⟩
    · rw [hs]
      rfl
    · rw [low_register, hs]
      exact (BitVec.mul_one _).symm
  · have hk : Int64.ofNat m.scale = 2 ∨ Int64.ofNat m.scale = 4 ∨ Int64.ofNat m.scale = 8 := by
      rcases hs with hs | hs | hs <;> rw [hs] <;> decide
    have hone : m.scale > 1 := by omega
    refine ⟨_, ?_, .scaled n hk, rfl, fun σ => ?_⟩
    · rw [if_pos hone, hbuild _ hk]
      rfl
    · have hlow : low 32 (.ofNat m.scale) = .ofNat 32 m.scale := by
        rcases hs with hs | hs | hs <;> rw [hs] <;> decide
      rw [value_scaled, low_ofBits (by decide), hlow]

/-- The number of 32 bits that is added to the registers. -/
def offset (m : MemoryOperand) : Expr := .num (ofBits (BitVec.ofInt 32 m.displacement)) 32

theorem number_displacement (m : MemoryOperand) : Expr.number (.ofInt m.displacement) 32 = m.offset := by
  rw [number_eq, settle_eq_wrap (by decide), offset, ← low_ofInt (by decide)]
  rfl

theorem low_offset (r : Registers) (m : MemoryOperand) (σ : State) :
    low 32 (value (σ.machine r) m.offset) = .ofInt 32 m.displacement := by
  rw [offset, value_num, low_ofBits (by decide)]

theorem isZero_offset (hm : m.Encodable) (hd : m.displacement ≠ 0) : m.offset.isZero = false := by
  have hne : BitVec.ofInt 32 m.displacement ≠ 0 := by
    intro hzero
    have hrange := hm.displacement
    have hint := congrArg BitVec.toInt hzero
    rw [BitVec.toInt_ofInt, Int.bmod_eq_of_le (by omega) (by omega)] at hint
    exact hd hint
  have hword : ofBits (.ofInt 32 m.displacement) ≠ 0 :=
    fun h => hne ((ofBits_inj (by decide)).mp (h.trans (by decide : (0 : Int64) = ofBits (0 : BitVec 32))))
  simpa [isZero, offset, value?] using hword

/-- The registers of an address: none, one, or the sum of two. -/
def joined : List Expr → Option Expr
  | [] => none
  | [a] => some a
  | as => some (.op .plus as)

theorem sum_of_parts (r : Registers) (h : ∀ a ∈ as, Part a ∧ a.isZero = false) (hlen : 2 ≤ as.length) (hlen' : as.length ≤ 3)
    (hnumbers : (as.filterMap value?).length ≤ 1) : Expr.plus as = .ok (.op .plus as) ∧ Address (.op .plus as) ∧
      ∀ σ : State, low 32 (value (σ.machine r) (.op .plus as)) =
        (as.map fun a => low 32 (value (σ.machine r) a)).foldr (· + ·) 0 := by
  have hrigid := rigid_of_parts h hlen hnumbers
  exact ⟨hrigid.operation_eq, .sum (fun a ha => (h a ha).1) hlen' hrigid, fun σ => low_sum r σ hrigid⟩

theorem isZero_of_value? (h : e.value? = none) : e.isZero = false := by
  simp [isZero, h]

theorem exists_registers (hr : Complete r) (hm : m.Encodable) :
    ∃ ps : List Expr, ps.length ≤ 2 ∧ (∀ p ∈ ps, Part p ∧ p.value? = none) ∧ m.address r = (match joined ps with
        | none => .ok m.offset
        | some e => if m.displacement == 0 then .ok e else Expr.plus [e, m.offset]) ∧
      ∀ σ : State, (ps.map fun p => low 32 (value (σ.machine r) p)).foldr (· + ·) 0 =
        (m.base.map (σ.dword r)).getD 0 + (m.index.map (σ.dword r)).getD 0 * .ofNat 32 m.scale := by
  have hvar (n : Fin 8) : (Register.dword n).variableIn r = Size.dword.var n := hr.register .dword n
  unfold address
  rw [m.number_displacement]
  cases m.base with
  | none =>
    cases m.index with
    | none => exact ⟨[], by decide, by simp, rfl, fun σ => by simp⟩
    | some j =>
      obtain ⟨e, he, hpart, hvalue, hlow⟩ := exists_scaledIndex hr hm j
      refine ⟨[e], by simp, by simpa using ⟨hpart, hvalue⟩, ?_, fun σ => by simp [hlow]⟩
      simp only [he, ok_bind]
      rfl
  | some n =>
    have hregister : Part (.var (Size.dword.var n)) := .register n
    cases m.index with
    | none =>
      refine ⟨[.var (Size.dword.var n)], by simp, by simpa using ⟨hregister, rfl⟩, ?_, fun σ => by simp [low_register]⟩
      simp only [Option.map_some, hvar]
      rfl
    | some j =>
      obtain ⟨e, he, hpart, hvalue, hlow⟩ := exists_scaledIndex hr hm j
      have hparts : ∀ a ∈ [.var (Size.dword.var n), e], Part a ∧ a.value? = none := by
        simpa using ⟨⟨hregister, rfl⟩, hpart, hvalue⟩
      have hsum := (sum_of_parts r (fun a ha => ⟨(hparts a ha).1, isZero_of_value? (hparts a ha).2⟩) (Nat.le_refl 2)
        (by decide : 2 ≤ 3) (by rw [List.filterMap_eq_nil_iff.mpr fun a ha => (hparts a ha).2]; decide)).1
      refine ⟨[.var (Size.dword.var n), e], by simp, hparts, ?_, fun σ => by simp [low_register, hlow]⟩
      simp only [he, Option.map_some, hvar, addTo, hsum, ok_bind]
      rfl

/-- **Effective addresses.** The address of a memory operand is an expression for base, scaled index
and displacement, modulo 2³². -/
theorem exists_address (hr : Complete r) (hm : m.Encodable) : ∃ a, m.address r = .ok a ∧ Address a ∧
      ∀ σ : State, low 32 (value (σ.machine r) a) = m.effective r σ := by
  obtain ⟨ps, hlen, hparts, haddress, hsum⟩ := exists_registers hr hm
  have hoffset : Part m.offset := .number _
  have hparts' : ∀ p ∈ ps, Part p ∧ p.isZero = false :=
    fun p hp => ⟨(hparts p hp).1, isZero_of_value? (hparts p hp).2⟩
  have heffective (σ : State) : m.effective r σ =
      (ps.map fun p => low 32 (value (σ.machine r) p)).foldr (· + ·) 0 +
        .ofInt 32 m.displacement := by
    rw [hsum]
    rfl
  have hvalues : ps.filterMap value? = [] := List.filterMap_eq_nil_iff.mpr fun p hp => (hparts p hp).2
  rw [haddress]
  rcases Nat.eq_zero_or_pos ps.length with hnil | hpos
  · obtain rfl := List.length_eq_zero_iff.mp hnil
    refine ⟨m.offset, rfl, .part hoffset, fun σ => ?_⟩
    rw [heffective, low_offset]
    exact (BitVec.zero_add _).symm
  have hshape : (∃ p, ps = [p]) ∨ ∃ p q, ps = [p, q] := by
    rcases ps with _ | ⟨p, _ | ⟨q, _ | ⟨_, _⟩⟩⟩
    · simp at hpos
    · exact .inl ⟨p, rfl⟩
    · exact .inr ⟨p, q, rfl⟩
    · simp at hlen
  by_cases hd : m.displacement = 0
  · have heffective' (σ : State) : m.effective r σ =
        (ps.map fun p => low 32 (value (σ.machine r) p)).foldr (· + ·) 0 := by
      rw [heffective, hd]
      exact BitVec.add_zero _
    simp only [hd, beq_self_eq_true, if_true]
    obtain ⟨p, rfl⟩ | ⟨p, q, rfl⟩ := hshape
    · refine ⟨p, rfl, .part (hparts p (by simp)).1, fun σ => ?_⟩
      rw [heffective']
      exact (BitVec.add_zero _).symm
    · obtain ⟨-, haddr, hlow⟩ := sum_of_parts r hparts' (Nat.le_refl 2) (by decide : 2 ≤ 3) (by rw [hvalues]; decide)
      exact ⟨_, rfl, haddr, fun σ => (hlow σ).trans (heffective' σ).symm⟩
  · -- The sum of two registers is opened, so that the displacement comes first.
    have hall : ∀ p ∈ m.offset :: ps, Part p ∧ p.isZero = false :=
      List.forall_mem_cons.mpr ⟨⟨hoffset, isZero_offset hm hd⟩, hparts'⟩
    have hnumbers : ((m.offset :: ps).filterMap value?).length ≤ 1 := by
      have hcons : (m.offset :: ps).filterMap value? = [_] := congrArg (_ :: ·) hvalues
      rw [hcons]
      exact Nat.le_refl 1
    have hcomm (σ : State) : ((m.offset :: ps).map fun p => low 32 (value (σ.machine r) p)).foldr (· + ·) 0 =
        m.effective r σ := by
      rw [heffective, List.map_cons, List.foldr_cons, low_offset, BitVec.add_comm]
    simp only [beq_iff_eq, hd, if_false]
    obtain ⟨p, rfl⟩ | ⟨p, q, rfl⟩ := hshape
    · have hswap : ∀ a ∈ [p, m.offset], Part a ∧ a.isZero = false :=
        fun a ha => hall a (List.mem_cons.mpr (by simpa [or_comm] using ha))
      obtain ⟨hbuild, haddr, hlow⟩ := sum_of_parts r hswap (Nat.le_refl 2) (by decide : 2 ≤ 3) (by
        rw [List.filterMap_cons_none (hparts p (by simp)).2]
        exact Nat.le_refl 1)
      refine ⟨_, hbuild, haddr, fun σ => (hlow σ).trans ?_⟩
      rw [← hcomm]
      simp [BitVec.add_comm]
    · obtain ⟨hbuild, haddr, hlow⟩ := sum_of_parts r hall (by decide : 2 ≤ 3) (Nat.le_refl 3) hnumbers
      refine ⟨_, ?_, haddr, fun σ => (hlow σ).trans (hcomm σ)⟩
      have hflat : flatten .plus [.op .plus [p, q], m.offset] = flatten .plus [m.offset, p, q] := by
        have hsum' : operandsOf .plus (.op .plus [p, q]) = some [p, q] := rfl
        have hp := (hparts p (by simp)).1.flat
        have hq := (hparts q (by simp)).1.flat
        simp [flatten, hsum', hp, hq, hoffset.flat]
      refine Eq.trans ?_ hbuild
      change apply .plus (flatten .plus _) = apply .plus (flatten .plus _)
      rw [hflat]

end MemoryOperand

end

end FlowRecovery.IA32
