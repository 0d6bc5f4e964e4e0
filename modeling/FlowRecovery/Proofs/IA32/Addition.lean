import FlowRecovery.Proofs.IA32.Arithmetic

/-!
# Flags after addition and subtraction

An addition or subtraction without carry writes its result and then computes the flags, for which it
reads the second operand again. If the result was written over the second operand, or over a
register in its address, the flags are computed from another number `z`. They are then right exactly
if `z` leads to the same flags (`Arithmetic.Agrees`); `lift_arithmetic` is the statement about
lifted instructions.
-/

namespace FlowRecovery.IA32

open FlowRecovery.Expr Instruction BitVec

variable {s : Size} {n : Nat} {o : Arithmetic}

namespace Arithmetic

/-! ### Flags as numbers tell them -/

theorem sign_cases (x : BitVec n) : x.msb = false ∧ x.toInt = x.toNat ∧ 2 * x.toNat < 2 ^ n ∨
    x.msb ∧ x.toInt = x.toNat - (2 ^ n : Nat) ∧ 2 ^ n ≤ 2 * x.toNat := by
  cases h : x.msb with
  | false => exact .inl ⟨rfl, toInt_eq_toNat_of_msb h, msb_eq_false_iff_two_mul_lt.mp h⟩
  | true =>
    refine .inr ⟨rfl, ?_, msb_eq_true_iff_two_mul_ge.mp h⟩
    rw [toInt_eq_msb_cond, if_pos h]

theorem sum_cases (x y : BitVec n) (c : Bool) (ho : o.subtracts = false) :
    (o.result x y c).toNat = x.toNat + y.toNat + (o.carries && c).toNat ∨
      (o.result x y c).toNat + 2 ^ n = x.toNat + y.toNat + (o.carries && c).toNat := by
  have hx := x.isLt
  have hy := y.isLt
  have hc := Bool.toNat_le (o.carries && c)
  have ht : (o.result x y c).toNat = (x.toNat + y.toNat + (o.carries && c).toNat) % 2 ^ n := by
    simp [result, ho, toNat_add]
  rw [ht]
  by_cases hlt : x.toNat + y.toNat + (o.carries && c).toNat < 2 ^ n
  · exact .inl (Nat.mod_eq_of_lt hlt)
  · rw [Nat.mod_eq_sub_mod (by omega), Nat.mod_eq_of_lt (by omega)]
    exact .inr (by omega)

theorem shown_sum (hn : 0 < n) (x y : BitVec n) (c : Bool) (ho : o.subtracts = false) :
    o.shown x y (o.result x y c) = o.status x y c := by
  obtain ⟨m, hm⟩ : 2 ∣ 2 ^ n := dvd_pow_self 2 hn.ne'
  have ht := sum_cases x y c ho
  have hlt := (o.result x y c).isLt
  unfold shown status exact
  rw [if_neg (by simp [ho]), if_neg (by simp [ho]), if_neg (by simp [ho])]
  have hc := Bool.toNat_le (o.carries && c)
  generalize (o.carries && c).toNat = d at *
  generalize o.result x y c = t at *
  rcases sign_cases x with ⟨hx, hx', _⟩ | ⟨hx, hx', _⟩ <;> rcases sign_cases y with ⟨hy, hy', _⟩ | ⟨hy, hy', _⟩ <;>
    rcases sign_cases t with ⟨ht, ht', _⟩ | ⟨ht, ht', _⟩ <;>
    simp only [hx, hy, ht, hx', hy', ht', Status.mk.injEq, and_true, Bool.and_false, Bool.and_true, Bool.or_false,
      Bool.or_true, Bool.not_false, Bool.not_true, Bool.or_self,
      eq_comm (a := true), eq_comm (a := false), decide_eq_true_eq, decide_eq_false_iff_not] <;> omega

theorem difference_cases (hn : 0 < n) (x y : BitVec n) (c : Bool) (ho : o.subtracts) :
    (o.result x y c).toNat + y.toNat + (o.carries && c).toNat = x.toNat ∨
      (o.result x y c).toNat + y.toNat + (o.carries && c).toNat = x.toNat + 2 ^ n := by
  have hx := x.isLt
  have hy := y.isLt
  have hc := Bool.toNat_le (o.carries && c)
  have hone := Nat.one_lt_two_pow hn.ne'
  have ht : (o.result x y c).toNat =
      (2 ^ n - (o.carries && c).toNat + (2 ^ n - y.toNat + x.toNat) % 2 ^ n) % 2 ^ n := by
    simp [result, ho, toNat_sub, Nat.mod_eq_of_lt (Nat.lt_of_le_of_lt hc hone)]
  generalize (o.carries && c).toNat = d at *
  have hmod (k : Nat) (hk : k < 2 * 2 ^ n) : k % 2 ^ n = if k < 2 ^ n then k else k - 2 ^ n := by
    split
    · next h => exact Nat.mod_eq_of_lt h
    · next h => rw [Nat.mod_eq_sub_mod (by omega), Nat.mod_eq_of_lt (by omega)]
  rw [ht, hmod (2 ^ n - y.toNat + x.toNat) (by omega)]
  split <;> rw [hmod _ (by omega)] <;> split <;> omega

theorem overflow_difference (hn : 0 < n) {x y t : BitVec n}
    (h : t.toNat + y.toNat = x.toNat ∨ t.toNat + y.toNat = x.toNat + 2 ^ n) : decide (t.toInt ≠ x.toInt - y.toInt) =
      ((decide (0 < t.toInt) && (x.msb && !y.msb)) || (decide (t.toInt < 0) && (!x.msb && y.msb))) := by
  obtain ⟨m, hm⟩ : 2 ∣ 2 ^ n := dvd_pow_self 2 hn.ne'
  have hlt := t.isLt
  rcases sign_cases x with ⟨hx, hx', _⟩ | ⟨hx, hx', _⟩ <;> rcases sign_cases y with ⟨hy, hy', _⟩ | ⟨hy, hy', _⟩ <;>
    rcases sign_cases t with ⟨-, ht', _⟩ | ⟨-, ht', _⟩ <;>
    simp only [hx, hy, hx', hy', ht', Bool.and_false, Bool.and_true, Bool.or_false, Bool.false_or, Bool.not_false,
      Bool.not_true, Bool.or_self, decide_eq_false_iff_not, decide_eq_decide] <;> omega

/-- The flags of a difference without carry are right exactly if the operand `z` that they are
computed from leads to the same as the operand `y`. -/
theorem shown_difference (hn : 0 < n) (x y z : BitVec n) (c : Bool) (ho : o.subtracts) (hc : o.carries = false) :
    o.shown x z (o.result x y c) = o.status x y c ↔ (x.toNat < z.toNat ↔ x.toNat < y.toNat) ∧ (x = z ↔ x = y) ∧
        (z.msb = y.msb ∨ if x.msb then (x - y).toInt ≤ 0 else 0 ≤ (x - y).toInt) := by
  have hresult : o.result x y c = x - y := by
    simp only [result, ho, hc, if_true, Bool.false_and, Bool.toNat_false, BitVec.sub_zero]
  have ht := difference_cases hn x y c ho
  have hlt := (x - y).isLt
  have hzero : (x - y == 0) = decide (x = y) := by
    rw [Bool.eq_iff_iff, beq_iff_eq, decide_eq_true_eq]
    exact sub_eq_zero
  simp only [hresult, hc, Bool.false_and, Bool.toNat_false, Nat.add_zero] at ht
  have hcarry : decide (((x - y).toNat : Int) ≠ x.toNat - y.toNat) = decide (x.toNat < y.toNat) := by
    rw [decide_eq_decide]
    omega
  unfold shown status exact
  simp only [if_pos ho, hresult, hc, Bool.false_and, Bool.toNat_false, Nat.cast_zero, sub_zero, hcarry, hzero,
    overflow_difference hn ht, ult_eq_decide, slt_eq_decide, toInt_zero, beq_eq_decide,
    msb_eq_toInt (x := x - y), Status.mk.injEq, decide_eq_decide]
  generalize (x - y).toInt = k
  have hsigns : ((decide (0 < k) && (x.msb && !z.msb)) || (decide (k < 0) && (!x.msb && z.msb))) =
      ((decide (0 < k) && (x.msb && !y.msb)) || (decide (k < 0) && (!x.msb && y.msb))) ↔
        z.msb = y.msb ∨ if x.msb then k ≤ 0 else 0 ≤ k := by
    cases x.msb <;> cases y.msb <;> cases z.msb <;> simp
  rw [hsigns]
  tauto

/-- The flags of a sum are right exactly if the operand `z` that they are computed from has the sign
of the operand `y`. -/
theorem shown_sum_iff (hn : 0 < n) (x y z : BitVec n) (c : Bool) (ho : o.subtracts = false) :
    o.shown x z (o.result x y c) = o.status x y c ↔ z.msb = y.msb := by
  rw [← shown_sum hn x y c ho]
  unfold shown
  rw [if_neg (by simp [ho]), if_neg (by simp [ho])]
  cases x.msb <;> cases y.msb <;> cases z.msb <;> cases (o.result x y c).msb <;> simp

/-- The number `z` leads to the flags of the operands `x` and `y`. -/
def Agrees (o : Arithmetic) (x y z : BitVec n) : Prop :=
  if o.subtracts then
    (x.toNat < z.toNat ↔ x.toNat < y.toNat) ∧ (x = z ↔ x = y) ∧
      (z.msb = y.msb ∨ if x.msb then (x - y).toInt ≤ 0 else 0 ≤ (x - y).toInt)
  else z.msb = y.msb

theorem shown_eq_status_iff (hn : 0 < n) (x y z : BitVec n) (c : Bool) (hc : o.carries = false) :
    o.shown x z (o.result x y c) = o.status x y c ↔ o.Agrees x y z := by
  unfold Agrees
  split
  · next ho => exact shown_difference hn x y z c ho hc
  · next ho => exact shown_sum_iff hn x y z c (by simpa using ho)

theorem agrees_refl (o : Arithmetic) (x y : BitVec n) : o.Agrees x y y := by
  unfold Agrees
  split
  · exact ⟨Iff.rfl, Iff.rfl, .inl rfl⟩
  · rfl

/-! ### Instructions -/

section

variable {p : Place s} {y : Source s} {i : Instruction} {c : Context} {a b b' e x z : Expr} {r : Registers}

theorem computes_result (h : Operates c s x z a e e) (hb : Start s x a b b') (hp : p.Denotes r a) (hy : y.Denotes r e e)
    (hdiffers : a = e ∨ e.equals a = false) (hc : o.carries = false) :
    Computes r False c s (Saved r s a) a (o.sum s b z) fun σ => o.result (p.read r σ) (y.read r σ) (σ.flag r CF) := by
  have hfirst (σ : State) : s.number r a σ = p.read r σ := by
    rw [Size.number, hp.value_eq, Word.low_ofBits s.bits_le]
  have hsecond (σ : State) : s.number r e σ = y.read r σ := by
    rw [Size.number, hy.value_eq, Word.low_ofBits s.bits_le]
  unfold sum signed result
  rw [hc]
  cases o.subtracts with
  | false => exact (h.computes_sum (hb.starts h) hy.whole False.elim).congr fun σ => by simp [hfirst, hsecond]
  | true =>
    exact (h.computes_difference (hb.starts h) hy.whole False.elim (hb.differs h hdiffers)).congr fun σ => by
      simp [hfirst, hsecond]

theorem result_of_alike {σ σ' : State} (hr : Complete r) (hp : p.Denotes r a) (y : Source s) (h : State.Alike σ σ')
    (hflags : ∀ x ∈ flagVars, σ'.flag r x = σ.flag r x) :
    o.result (p.read r σ') (y.read r σ') (σ'.flag r CF) = o.result (p.read r σ) (y.read r σ) (σ.flag r CF) := by
  rw [hp.read_of_alike hr h, y.read_of_alike hr h, hflags CF (by decide)]

theorem Encodes.exists_result (h : Encodes i o p y) (hc : o.carries = false) (summarize : Bool) (address : Int64) :
    ∃ ss, i.lift architecture summarize address = .ok ss ∧ ∀ σ : State, ∃ σ', σ.execute architecture.vars ss = some σ' ∧
      State.Alike (p.write architecture.vars σ
        (o.result (p.read architecture.vars σ) (y.read architecture.vars σ) (σ.flag architecture.vars CF))) σ' ∧
      p.read architecture.vars σ' =
        o.result (p.read architecture.vars σ) (y.read architecture.vars σ) (σ.flag architecture.vars CF) ∧
      σ'.status architecture.vars = o.shown (p.read architecture.vars σ) (y.read architecture.vars σ')
        (o.result (p.read architecture.vars σ) (y.read architecture.vars σ) (σ.flag architecture.vars CF)) := by
  obtain ⟨a, hp⟩ := p.exists_denotes complete_architecture
  obtain ⟨e, e', hbinds, hy, he⟩ := exists_binds complete_architecture h.admits hp
  obtain rfl := he.mpr (by simp [hc])
  have hdiffers := eq_or_differs complete_architecture h.admits hp hy
  exact h.exists_lift hp hy hbinds
    (fun σ σ' halike hflags => result_of_alike complete_architecture hp y halike hflags)
    (fun hop hb => computes_result hop hb hp hy hdiffers hc) summarize address

/-- **Addition and subtraction.** Lifted instructions without carry leave the sum or the difference
of the old operands in the first one and change no other register and no other memory, flags and
scratch registers apart. All flags are those of the old operands exactly if the second operand, read
again after the result was written, agrees with what it was. -/
theorem lift_arithmetic (h : Encodes i o p y) (hc : o.carries = false) (summarize : Bool) (address : Int64) :
    ∃ ss, i.lift architecture summarize address = .ok ss ∧ ∀ σ : State, ∃ σ', σ.execute architecture.vars ss = some σ' ∧
      State.Alike (p.write architecture.vars σ
        (o.result (p.read architecture.vars σ) (y.read architecture.vars σ) false)) σ' ∧
      p.read architecture.vars σ' = o.result (p.read architecture.vars σ) (y.read architecture.vars σ) false ∧
      (σ'.status architecture.vars = o.status (p.read architecture.vars σ) (y.read architecture.vars σ) false ↔
        o.Agrees (p.read architecture.vars σ) (y.read architecture.vars σ) (y.read architecture.vars
          (p.write architecture.vars σ (o.result (p.read architecture.vars σ) (y.read architecture.vars σ) false)))) := by
  obtain ⟨ss, hss, hrun⟩ := h.exists_result hc summarize address
  have hcarry (x y : BitVec s.bits) (c : Bool) : o.result x y c = o.result x y false := by
    simp [result, hc]
  refine ⟨ss, hss, fun σ => ?_⟩
  obtain ⟨σ', hσ', halike, hread, hstatus⟩ := hrun σ
  rw [hcarry] at halike hread hstatus
  refine ⟨σ', hσ', halike, hread, ?_⟩
  rw [hstatus, y.read_of_alike complete_architecture halike]
  exact shown_eq_status_iff (by cases s <;> decide) _ _ _ _ hc

end

/-- Numbers do not change, so all flags are right after the number -1 of 8 bits is added to AX. -/
theorem lift_add_minus_one : ∃ ss,
    (Instruction.mk "addw" default [.register (.word 0), .immediate (-1) .int8] 4 {}).lift architecture false 4096 = .ok ss ∧
      ∀ σ : State, ∃ σ', σ.execute architecture.vars ss = some σ' ∧
        (Place.register 0 : Place .word).read architecture.vars σ' =
          (Place.register 0 : Place .word).read architecture.vars σ + BitVec.ofInt Size.word.bits (-1) ∧
        σ'.status architecture.vars =
          status ⟨false, false⟩ ((Place.register 0 : Place .word).read architecture.vars σ)
            (BitVec.ofInt Size.word.bits (-1)) false := by
  have hencodes : Encodes (s := .word)
      ⟨"addw", default, [.register (.word 0), .immediate (-1) .int8], 4, {}⟩ ⟨false, false⟩ (.register 0)
      (.short (-1) .int8 rfl) := ⟨by decide, rfl, by decide, rfl⟩
  obtain ⟨ss, hss, hrun⟩ := lift_arithmetic hencodes rfl false 4096
  refine ⟨ss, hss, fun σ => ?_⟩
  obtain ⟨σ', hσ', -, hread, hstatus⟩ := hrun σ
  exact ⟨σ', hσ', hread.trans (add_zero _), hstatus.mpr (agrees_refl _ _ _)⟩

/-- A register without itself is zero, but the zero flag does not tell so: it compares the old
number with the result. -/
theorem lift_sub_self : ∃ ss σ σ',
    (Instruction.mk "subl" default [.register (.dword 0), .register (.dword 0)] 2 {}).lift architecture false 4096 = .ok ss ∧
      σ.execute architecture.vars ss = some σ' ∧
      (Place.register 0 : Place .dword).read architecture.vars σ = 1 ∧
      (Place.register 0 : Place .dword).read architecture.vars σ' = 0 ∧ (σ'.status architecture.vars).zero = false ∧
      (status ⟨true, false⟩ (1#32) 1#32 false).zero = true := by
  have hencodes : Encodes (s := .dword)
      ⟨"subl", default, [.register (.dword 0), .register (.dword 0)], 2, {}⟩ ⟨true, false⟩ (.register 0)
      (.place (.register 0)) := ⟨by decide, rfl, by decide, rfl⟩
  obtain ⟨ss, hss, hrun⟩ := hencodes.exists_result rfl false 4096
  have hp := Place.denotes_register (s := .dword) complete_architecture 0
  obtain ⟨σ', hσ', -, hread, hstatus⟩ :=
    hrun ((Place.register 0 : Place .dword).write architecture.vars ⟨fun _ _ => false, fun _ => 0, fun _ => 0⟩ 1)
  have hsecond (σ : State) : (Source.place (.register 0) : Source .dword).read architecture.vars σ =
      (Place.register 0 : Place .dword).read architecture.vars σ := rfl
  rw [hsecond, hp.read_write] at hread
  rw [hsecond, hsecond, hread, hp.read_write] at hstatus
  refine ⟨ss, _, σ', hss, hσ', hp.read_write _, hread.trans rfl, ?_, by decide⟩
  rw [hstatus]
  rfl

end Arithmetic

end FlowRecovery.IA32
