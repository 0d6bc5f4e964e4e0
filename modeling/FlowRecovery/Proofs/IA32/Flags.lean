import FlowRecovery.Proofs.IA32.Addition

/-!
# What comparisons leave in the flags

A comparison subtracts without keeping the difference. Its statements assign registers only, so they
can be run on a register file (`runAll`), where they do what they do on states
(`runAll_of_execute`). After them, the flags tell how the two operands compare (`Flags`,
`leavesFlags`): the carry flag is the unsigned order and the zero flag is equality, while the sign
of the difference is wrong if the overflow flag is set (`sign_xor_overflow`).

Hence the guards of conditional jumps, which are conditions over flags, ask what they should
(`Flags.guard_iff`).
-/

namespace FlowRecovery

/-! ### Straight-line code -/

def Effect.run (r : Registers) (ρ : Registers.File) : Effect → Option Registers.File
  | .assign v e => some (r.assign ρ v e)
  | .skip => some ρ
  | _ => none

def runAll (r : Registers) (ρ : Registers.File) (ss : List Stmt) : Option Registers.File :=
  (effects ss).foldlM (Effect.run r) ρ

theorem Registers.denote_assign {r : Registers} {ρ : File} {v : Var} {e : Expr} {n : Nat} (hv : v.width = n) :
    (Expr.var v).denote (r.read (r.assign ρ v e)) n = e.denote (r.read ρ) n := by
  have hn : v.width.toNat = n := by rw [hv, Int.toNat_natCast]
  subst hn
  change (r.read (r.write ρ v _) v).setWidth _ = _
  rw [read_write_self, BitVec.setWidth_eq]

namespace IA32

open FlowRecovery.Expr Instruction

variable {s : Size} {κ : Contents} {r : Registers} {ρ : Registers.File} {σ σ' : State} {ss : List Stmt}

theorem State.machine_of_bytes (h : σ.bytes = fun _ => 0) : σ.machine r = Expr.machine (r.read σ.file) := by
  have hload (a : BitVec 32) (n : Nat) : σ.load a n = 0#n := by
    apply BitVec.eq_of_getLsbD_eq
    intro k hk
    rw [getLsbD_load a hk, h]
    simp
  have hmemory (w : Int) (t : Option Int64) (a : Int64) : Word.ofBits (σ.load (σ.base t + Word.low 32 a) w.toNat) = 0 := by
    rw [hload]
    simp [Word.ofBits, BitVec.signExtend_eq_setWidth_of_msb_false]
  simp only [machine, Expr.machine, hmemory]

theorem Effect.OfRegisters.run_eq {e : Effect} (he : Effect.OfRegisters e) (h : σ.bytes = fun _ => 0)
    (hstep : σ.step r e = some σ') : e.run r σ.file = some σ'.file ∧ σ'.bytes = fun _ => 0 := by
  cases e with
  | assign x q =>
    have hq : Expr.Standard registerWords q x.width := he
    have hwords (w : Int) (hw : registerWords.width w) : w ≤ 64 := hw.2
    have hle := hwords _ (hq.hasWidth hwords).width_eq.2
    cases hstep
    refine ⟨congrArg some ?_, h⟩
    change r.write σ.file x _ = r.write σ.file x (Word.low x.width.toNat (value (σ.machine r) q))
    rw [State.machine_of_bytes h, value_eq_ofBits_denote hwords _ hq, Word.low_ofBits (by omega)]
  | _ => cases he

theorem foldlM_run {es : List Effect} (hes : ∀ e ∈ es, Effect.OfRegisters e) (h : σ.bytes = fun _ => 0)
    (hrun : es.foldlM (State.step r) σ = some σ') : es.foldlM (Effect.run r) σ.file = some σ'.file := by
  induction es generalizing σ with
  | nil =>
    cases hrun
    rfl
  | cons e es ih =>
    obtain ⟨he, hes⟩ := List.forall_mem_cons.mp hes
    obtain ⟨τ, hstep, hrest⟩ := Option.bind_eq_some_iff.mp hrun
    obtain ⟨hfirst, hbytes⟩ := Effect.OfRegisters.run_eq he h hstep
    rw [List.foldlM_cons, hfirst]
    exact ih hes hbytes hrest

/-! ### Flags -/

/-- The flags tell how `x` and `y` compare. -/
structure Flags (κ : Contents) {w : Nat} (x y : BitVec w) : Prop where
  carry : Tells κ (.var CF) (x.ult y)
  overflow : Tells κ (.var OF) (decide ((x - y).toInt ≠ x.toInt - y.toInt))
  sign : Tells κ (.var SF) (x - y).msb
  zero : Tells κ (.var ZF) (x == y)

theorem State.tells_flag (σ : State) (z : Var) : Tells (r.read σ.file) (.var z) (σ.flag r z) :=
  BitVec.setWidth_one

variable {w : Nat}

theorem Arithmetic.result_difference (x y : BitVec w) : result ⟨true, false⟩ x y false = x - y := by
  simp [result]

theorem flags_of_status (hw : 0 < w) {x y : BitVec w}
    (h : σ.status r = Arithmetic.shown ⟨true, false⟩ x y (x - y)) : Flags (r.read σ.file) x y := by
  have hstatus := (Arithmetic.shown_eq_status_iff hw x y y false rfl).mpr (Arithmetic.agrees_refl ⟨true, false⟩ x y)
  rw [Arithmetic.result_difference] at hstatus
  have hcarry : σ.flag r CF = x.ult y := congrArg Status.carry h
  have hoverflow : σ.flag r OF = (Arithmetic.status ⟨true, false⟩ x y false).overflow :=
    congrArg Status.overflow (h.trans hstatus)
  have hsign : σ.flag r SF = (x - y).msb := congrArg Status.sign h
  have hzero : σ.flag r ZF = (x == y) := congrArg Status.zero h
  refine ⟨hcarry ▸ σ.tells_flag CF, ?_, hsign ▸ σ.tells_flag SF, hzero ▸ σ.tells_flag ZF⟩
  have htells := σ.tells_flag (r := r) OF
  rw [hoverflow] at htells
  simpa only [Arithmetic.status, Arithmetic.result_difference, Arithmetic.exact, if_true, Bool.false_and,
    Bool.toNat_false, Nat.cast_zero, sub_zero] using htells

/-- A number is less than another if their difference is negative or wrong, but not both. -/
theorem sign_xor_overflow (hw : 0 < w) (x y : BitVec w) :
    ((x - y).msb ^^ decide ((x - y).toInt ≠ x.toInt - y.toInt)) = decide (x.toInt < y.toInt) := by
  obtain ⟨m, hm⟩ : 2 ∣ 2 ^ w := dvd_pow_self 2 hw.ne'
  have ht := Arithmetic.difference_cases (o := ⟨true, false⟩) hw x y false rfl
  simp only [Arithmetic.result_difference, Bool.false_and, Bool.toNat_false, Nat.add_zero] at ht
  generalize x - y = t at *
  rcases Arithmetic.sign_cases x with ⟨-, hx, _⟩ | ⟨-, hx, _⟩ <;>
    rcases Arithmetic.sign_cases y with ⟨-, hy, _⟩ | ⟨-, hy, _⟩ <;>
    rcases Arithmetic.sign_cases t with ⟨hsign, ht', _⟩ | ⟨hsign, ht', _⟩ <;>
    simp only [hsign, hx, hy, ht', Bool.false_xor, Bool.true_xor, ← decide_not, decide_eq_decide] <;> omega

/-! ### Guards -/

def Order.Holds (o : Order) {w : Nat} (x y : BitVec w) : Prop :=
  match o with
  | above => y.toNat < x.toNat
  | aboveOrEqual => y.toNat ≤ x.toNat
  | below => x.toNat < y.toNat
  | belowOrEqual => x.toNat ≤ y.toNat
  | equal => x = y
  | different => x ≠ y
  | greater => y.toInt < x.toInt
  | greaterOrEqual => y.toInt ≤ x.toInt
  | less => x.toInt < y.toInt
  | lessOrEqual => x.toInt ≤ y.toInt

/-- **The guards of jumps**, where the flags tell how two numbers compare. -/
theorem Flags.guard_iff (hw : 0 < w) {x y : BitVec w} (h : Flags κ x y) (o : Order) :
    o.guard.denote κ 1 = 1#1 ↔ o.Holds x y := by
  have hunsigned : x.ult y = decide (x.toNat < y.toNat) := BitVec.ult_eq_decide
  have hsigned := sign_xor_overflow hw x y
  have hagree : ((x - y).msb == decide ((x - y).toInt ≠ x.toInt - y.toInt)) = !decide (x.toInt < y.toInt) := by
    rw [← hsigned]
    cases (x - y).msb <;> cases decide ((x - y).toInt ≠ x.toInt - y.toInt) <;> rfl
  have hnat : (x == y) = decide (x.toNat = y.toNat) := by rw [beq_eq_decide, decide_eq_decide, BitVec.toNat_inj]
  have hint : (x == y) = decide (x.toInt = y.toInt) := by rw [beq_eq_decide, decide_eq_decide, BitVec.toInt_inj]
  cases o with
  | above =>
    refine Tells.iff (Tells.or (.cons h.carry (.cons h.zero .nil))).not ?_
    simp only [Order.Holds, hunsigned, hnat, List.any_cons, List.any_nil, id_eq, Bool.or_false, Bool.not_eq_true',
      Bool.or_eq_false_iff, decide_eq_false_iff_not]
    omega
  | aboveOrEqual =>
    refine Tells.iff h.carry.not ?_
    simp only [Order.Holds, hunsigned, Bool.not_eq_true', decide_eq_false_iff_not, Nat.not_lt]
  | below => exact Tells.iff h.carry (by simp only [Order.Holds, hunsigned, decide_eq_true_eq])
  | belowOrEqual =>
    refine Tells.iff (Tells.or (.cons h.carry (.cons h.zero .nil))) ?_
    simp only [Order.Holds, hunsigned, hnat, List.any_cons, List.any_nil, id_eq, Bool.or_false, Bool.or_eq_true,
      decide_eq_true_eq]
    omega
  | equal => exact Tells.iff h.zero beq_iff_eq
  | different => exact Tells.iff h.zero.not (by simp [Order.Holds])
  | greater =>
    refine Tells.iff (Tells.and (.cons (h.sign.equal h.overflow rfl) (.cons h.zero.not .nil))) ?_
    simp only [Order.Holds, hagree, hint, List.all_cons, List.all_nil, id_eq, Bool.and_true, Bool.and_eq_true,
      Bool.not_eq_true', decide_eq_false_iff_not]
    omega
  | greaterOrEqual =>
    refine Tells.iff (h.sign.equal h.overflow rfl) ?_
    simp only [Order.Holds, hagree, Bool.not_eq_true', decide_eq_false_iff_not, Int.not_lt]
  | less => exact Tells.iff (h.sign.xor h.overflow) (by simp only [Order.Holds, hsigned, decide_eq_true_eq])
  | lessOrEqual =>
    refine Tells.iff (Tells.or (.cons (h.sign.xor h.overflow) (.cons h.zero .nil))) ?_
    simp only [Order.Holds, hsigned, hint, List.any_cons, List.any_nil, id_eq, Bool.or_false, Bool.or_eq_true,
      decide_eq_true_eq]
    omega

end IA32

end FlowRecovery
