import FlowRecovery.Proofs.IA32.Addition

/-!
# Addition and subtraction with carry

With carry, a template adds or subtracts three things: its operands, and the carry flag as a number
(`Size.carry`). Apart from a zero, which is left out, nothing in this sum can be computed, so it is
assigned as it is (`Operates.computes_carried`).

The flags are those of an operation without carry. For sums they are right all the same. A
difference compares its operands and does not look at the carry flag, so it is right exactly if
there is no carry, or if the carry makes no difference (`lift_carried`).
-/

namespace FlowRecovery.IA32

open FlowRecovery.Expr Instruction Word

variable {c : Context} {s : Size} {e e' p x y a b z q q' : Expr} {u w : Int} {r : Registers}
    {v : Int64}

/-! ### The carry flag as a number -/

theorem width_carry (s : Size) (u : Int) : (s.carry u).width = .ok s.bits := by
  cases s <;> rfl

theorem becomes_carry (hc : Open c) (s : Size) (u : Int) : Becomes c 2 (s.carry u) (s.carry u) := by
  have hflag : Becomes c 1 (.var CF) (.var CF) :=
    (hc.free CF (mem_operandVars_of_flag (by decide))).becomes
  refine .done (by simp) (.cons (.num _ _) (.cons (.num _ _) (.cons hflag .nil))) (width_carry s u)
    (by cases s <;> decide) (width_carry s u) ?_
  cases s <;> rfl

theorem inferWidth_carry (s : Size) (hu : u = unknownWidth ∨ u = 8) :
    (s.carry u).inferWidth s.bits = .ok (s.carry 8) := by
  rcases hu with rfl | rfl <;> cases s <;> rfl

theorem plain_carry (s : Size) (u : Int) : Plain (s.carry u) :=
  plain_op (applyRules_inequalities nofun nofun nofun) (by simp [plain_num, plain_var])

theorem number_carry (r : Registers) (s : Size) (σ : State) :
    s.number r (s.carry 8) σ = .ofNat s.bits (σ.flag r CF).toNat := by
  have hbit : r.read σ.file CF = .ofBool (σ.flag r CF) := by
    apply BitVec.eq_of_getLsbD_eq
    intro k hk
    have hzero : k = 0 := Nat.lt_one_iff.mp hk
    rw [hzero, State.flag]
    cases (r.read σ.file CF).getLsbD 0 <;> rfl
  have hflag : value (σ.machine r) (.var CF) = truthWord (σ.flag r CF) := by
    rw [State.value_var (by decide) (by decide), hbit]
    cases σ.flag r CF <;> rfl
  have hvalue : value (σ.machine r) (s.carry 8) =
      ((extend false 1 (low32 (.ofNat (s.bits - 1))) (truthWord (σ.flag r CF)) 1).value?).getD
      0 := by
    rw [Size.carry, value, values, values, values, values, hflag, value_num, value_num]
    rfl
  rw [Size.number, hvalue]
  cases σ.flag r CF <;> cases s <;> rfl

/-! ### Summands -/

/-- What is added to the first operand: a place, the negative of one, or a number, before and after
it has its width. -/
inductive Summand (s : Size) : Expr → Expr → Prop where
  | cell {e : Expr} (h : Cell s e) : Summand s e e
  | opposite {e : Expr} (h : Cell s e) : Summand s (.op .neg [e]) (.op .neg [e])
  | number {v : Int64} {w : Int} (hpos : 0 < w) (hle : w ≤ s.bits)
      (h : (Expr.num v w).inferWidth s.bits = .ok (.num v s.bits)) :
      Summand s (.num v w) (.num v s.bits)

namespace Summand

section

variable (h : Summand s q q')

include h

theorem last : Summand s q' q' := by
  cases h with
  | cell h => exact .cell h
  | opposite h => exact .opposite h
  | number => exact .number s.bits_pos (Int.le_refl _) (inferWidth_num _ _)

theorem exists_width : ∃ w, q.width = .ok w ∧ 0 < w ∧ w ≤ s.bits := by
  cases h with
  | cell h | opposite h => exact ⟨_, (h.fixed open_empty).width_eq, s.bits_pos, Int.le_refl _⟩
  | @number v w hpos hle _ => exact ⟨w, rfl, hpos, hle⟩

theorem inferWidth_eq : q.inferWidth s.bits = .ok q' := by
  cases h with
  | cell h => exact (h.fixed open_empty).inferWidth_eq
  | opposite h =>
    exact ((h.fixed open_empty).stable_neg s.bits_pos s.admissible h.isNumber_eq).inferWidth_eq
  | number _ _ h => exact h

theorem stable : Stable s.bits q' := by
  cases h with
  | cell h => exact (h.fixed open_empty).stable
  | opposite h => exact (h.fixed open_empty).stable_neg s.bits_pos s.admissible h.isNumber_eq
  | number => exact (fixed_num .empty _ _).stable

theorem flat : operandsOf .plus q = none := by
  cases h with
  | cell h => exact (h.fixed open_empty).flat .plus
  | opposite | number => rfl

theorem carry_equals (u : Int) : (s.carry u).equals q = false := by
  cases h with
  | cell h => cases h <;> rfl
  | opposite | number => rfl

end

end Summand

namespace Arithmetic

variable {o : Arithmetic} {m : Prop}

/-- The summand for the carry flag. Its numbers have `u` bits. -/
def carried (o : Arithmetic) (s : Size) (u : Int) : Expr := o.signed (s.carry u)

section

variable (o : Arithmetic) (s : Size)

theorem carried_cases (u : Int) : o.carried s u = s.carry u ∨
    o.carried s u = .op .neg [s.carry u] := by
  unfold carried signed
  cases o.subtracts <;> simp

theorem becomes_carried (hc : Open c) (u : Int) : Becomes c 7 (o.carried s u) (o.carried s u) := by
  have hcarry := becomes_carry hc s u
  rcases o.carried_cases s u with h | h <;> rw [h]
  · exact hcarry.mono (by decide)
  · exact (Becomes.neg hcarry (width_carry s u) (width_carry s u) s.bits_pos.ne' s.admissible rfl
      rfl rfl).mono
      (by decide)

theorem width_carried (u : Int) : (o.carried s u).width = .ok s.bits := by
  rcases o.carried_cases s u with h | h <;> rw [h] <;> exact width_carry s u

theorem inferWidth_carried (hu : u = unknownWidth ∨ u = 8) :
    (o.carried s u).inferWidth s.bits = .ok (o.carried s 8) := by
  have hcarry := inferWidth_carry s hu
  unfold carried signed
  split
  · rw [inferWidth_op (.cons hcarry .nil) (by simp)]
    exact operation_neg_of_flat (width_carry s 8) s.admissible rfl rfl
  · exact hcarry

theorem stable_carried : Stable s.bits (o.carried s 8) where
  becomes := becomes_carried o s open_empty 8
  inferWidth_eq := inferWidth_carried o s (.inr rfl)
  plain := by
    have hplain := plain_carry s 8
    rcases o.carried_cases s 8 with h | h <;> rw [h]
    · exact hplain
    · exact plain_op (applyRules_inequalities nofun nofun nofun) (by simp [hplain])

theorem number_carried (r : Registers) (σ : State) :
    s.number r (o.carried s 8) σ = if o.subtracts then -BitVec.ofNat s.bits (σ.flag r CF).toNat
      else .ofNat s.bits (σ.flag r CF).toNat := by
  unfold carried signed
  split
  · rw [number_neg (width_carry s 8), number_carry]
  · exact number_carry r s σ

end

theorem carry_equals_of_held (ha : Held m s a) (u : Int) : (s.carry u).equals a = false := by
  cases ha with
  | cell ha => cases ha <;> rfl
  | scratch => rfl

theorem rigid_carried (ha : Held m s a) (o : Arithmetic) (u : Int) :
    Rigid s.bits [a, o.carried s u] := by
  refine rigid_pair ha (o.width_carried s u) ?_ ?_ fun y ys h => ?_
  iterate 2 rcases o.carried_cases s u with h | h <;> rw [h] <;> rfl
  · rcases o.carried_cases s u with h' | h' <;> rw [h'] at h <;> cases h
    rw [h']
    exact ⟨carry_equals_of_held ha u, rfl⟩

theorem operationWidth_triple {k : Expr} (ha : a.width = .ok s.bits)
    (hq : ∃ w, q.width = .ok w ∧ 0 < w ∧ w ≤ s.bits)
    (hk : k.width = .ok s.bits) :
    operationWidth .plus [a, q, k] (widths [a, q, k]) = .ok s.bits := by
  obtain ⟨w, hw, hpos, hle⟩ := hq
  change commonWidth [a.width, q.width, k.width] = _
  rw [ha, hw, hk]
  simp only [commonWidth, commonWidth.go, ok_bind, not_le.mpr s.bits_pos, not_le.mpr hpos, if_false,
    max_eq_left hle, max_self]

theorem rigid_summand (ha : Held m s a) (hq : Summand s q q') (hzero : q.isZero = false)
    (hne : ∀ e, q = .op .neg [e] → e.equals a = false) (o : Arithmetic) (u : Int) :
    Rigid s.bits [a, q, o.carried s u] := by
  have hpair := rigid_carried ha o u
  obtain ⟨hazero, hkzero⟩ : a.isZero = false ∧ (o.carried s u).isZero = false := by
    simpa using hpair.isZero_eq
  obtain ⟨haflat, hkflat⟩ : operandsOf .plus a = none ∧
    operandsOf .plus (o.carried s u) = none := by
    simpa using hpair.flat
  have hafixed := ha.fixed open_empty
  refine ⟨s.bits_pos, s.admissible, by simp, ?_, ?_, ?_, ?_, fun y ys hmem => ?_⟩
  · exact operationWidth_triple hafixed.width_eq hq.exists_width (o.width_carried s u)
  · simpa using ⟨hazero, hzero, hkzero⟩
  · simpa using ⟨haflat, hq.flat, hkflat⟩
  · have havalue : a.value? = none := by
      cases ha with
      | cell ha => cases ha <;> rfl
      | scratch => rfl
    have hkvalue : (o.carried s u).value? = none := by
      rcases o.carried_cases s u with h | h <;> rw [h] <;> rfl
    cases h : q.value? <;> simp [havalue, hkvalue, h]
  · -- a negative among the summands is that of the second operand, or of the carry flag
    simp only [List.mem_cons, List.not_mem_nil, or_false] at hmem
    rcases hmem with rfl | rfl | hmem
    · cases ha with
      | cell ha => cases ha
    · cases hq with
      | cell h => cases h
      | opposite h =>
        have hself : y.equals (.op .neg [y]) = false := by cases h <;> rfl
        have hcarry : y.equals (o.carried s u) = false := by
          rcases o.carried_cases s u with h' | h' <;> rw [h'] <;> cases h <;> rfl
        simpa using ⟨hne y rfl, hself, hcarry⟩
    · rcases o.carried_cases s u with h | h <;> rw [h] at hmem <;> cases hmem
      rw [h]
      simpa using ⟨carry_equals_of_held ha u, hq.carry_equals u, rfl⟩

theorem value_triple (μ : Machine) (h : Rigid s.bits [a, b, z]) : value μ (.op .plus [a, b, z]) =
    ofBits (low s.bits (value μ a) + low s.bits (value μ b) + low s.bits (value μ z)) := by
  rw [value_op μ (show (op .plus [a, b, z]).width = .ok s.bits from h.width_eq), BitVec.add_assoc,
    ← low_add s.bits_le, ← low_add s.bits_le]
  change wrap s.bits (value μ a + (value μ b + (value μ z + 0))) = _
  rw [Int64.add_zero]
  rfl

theorem becomes_dropped {k : Expr} (ha : Held m s a) (hb : Becomes c 7 b a) (hz : Becomes c 7 z q)
    (hk : Becomes c 7 k k)
    (hzero : q.isZero) (hloose : ∀ e ∈ [b, z, k], Loose s e) (hq : ∃ w, q.width = .ok w ∧ 0 < w ∧
    w ≤ s.bits)
    (hrigid : Rigid s.bits [a, k]) (hkwidth : k.width = .ok s.bits) (hagain : Becomes c 7 a a) :
    Becomes c 9 (.op .plus [b, z, k]) (.op .plus [a, k]) := by
  obtain ⟨w, hw, hcases⟩ := exists_operationWidth (by simp) hloose
  have hsum := operationWidth_triple (ha.fixed open_empty).width_eq hq hkwidth
  have hdrop : dropOperand .plus [b, z, k] [a, q, k] 1 = .ok (.op .plus [a, k]) := by
    have hrest : [a, q, k].eraseIdx 1 = [a, k] := rfl
    unfold dropOperand
    simp only [hw, hrest, hrigid.width_eq, hrigid.operation_eq, ok_bind]
    rcases hcases with rfl | rfl <;> simp
  have hfirst : plusRule s.bits [b, z, k] [a, q, k] 0 a [q, k] = .ok none := by
    cases ha with
    | cell ha => cases ha <;> rfl
    | scratch => rfl
  have hsecond : plusRule s.bits [b, z, k] [a, q, k] 1 q [k] =
    .ok (some (.again (.op .plus [a, k]))) := by
    unfold plusRule
    rw [hzero, if_pos rfl, hdrop]
    rfl
  have hpair : Becomes c 8 (.op .plus [a, k]) (.op .plus [a, k]) :=
    .sum (.cons hagain (.cons hk .nil)) hrigid.width_eq hrigid
  refine .again (by simp) (.cons (hb.mono (by decide))
    (.cons (hz.mono (by decide)) (.cons (hk.mono (by decide)) .nil))) hsum
    s.bits_pos.ne' hw ?_ hpair
  simp only [reduce, identityRule, scan, hfirst, hsecond, ok_bind]
  rfl

/-- **Sums with carry.** The first operand gets its sum with the second and with the carry flag. -/
theorem computes_carried (h : Operates c s x y p e e') (hb : Start s x p b a) (hq : Summand s q q')
    (hz : Becomes c 7 z q) (hloose : Loose s z) (hne : ∀ e, q = .op .neg [e] → e.equals a = false) :
    Computes r False c s (Saved r s p) p (.op .plus [b, z, o.carried s unknownWidth]) fun σ =>
      s.number r p σ + s.number r q' σ + s.number r (o.carried s 8) σ := by
  have hstarts := hb.starts (r := r) h
  have hheld := hstarts.held
  have hafixed := hheld.fixed open_empty
  have hfirst : Becomes c 7 b a := hstarts.becomes.mono (by decide)
  have hlast := becomes_carried o s h.cleared unknownWidth
  have hinfer := inferWidth_carried o s (.inl rfl)
  have hallLoose : ∀ e ∈ [b, z, o.carried s unknownWidth], Loose s e := by
    simpa using ⟨hstarts.loose, hloose, .inr (o.width_carried s _)⟩
  cases hzero : q.isZero with
  | false =>
    have hne' : ∀ e, q' = .op .neg [e] → e.equals a = false := by
      cases hq with
      | cell | opposite => exact hne
      | number => nofun
    have hzero' : q'.isZero = false := by
      cases hq <;> exact hzero
    have hrigid := rigid_summand hheld hq.last hzero' hne' o 8
    refine .assigns (q := .op .plus [a, q', o.carried s 8]) ?_ nofun fun σ hσ => ?_
    · refine assigned_sum hstarts.target hallLoose (.cons hfirst (.cons hz (.cons hlast .nil)))
        (rigid_summand hheld hq hzero hne o unknownWidth)
        (.cons hafixed.inferWidth_eq (.cons hq.inferWidth_eq (.cons hinfer .nil))) hrigid ?_
      simpa using ⟨hafixed.stable, hq.stable, o.stable_carried s⟩
    · rw [value_triple _ hrigid, hstarts.value_eq σ hσ]
      rfl
  | true =>
    have hrigid := rigid_carried hheld o 8
    have hsum := becomes_dropped hheld hfirst hz hlast hzero hallLoose hq.exists_width
      (rigid_carried hheld o unknownWidth) (o.width_carried s _)
      ((hheld.fixed h.cleared).becomes.mono (by decide))
    refine .assigns (q := .op .plus [a, o.carried s 8]) ?_ nofun fun σ hσ => ?_
    · refine assigned_of_evaluate hstarts.target (hsum.evaluate (by decide))
        (.cons hafixed.inferWidth_eq (.cons hinfer .nil)) hrigid ?_
      simpa using ⟨hafixed.stable, o.stable_carried s⟩
    · have hnumber : s.number r q' σ = 0 := by
        cases hq with
        | cell h =>
          have hnum := isZero_of_isNumber h.isNumber_eq
          rw [hzero] at hnum
          cases hnum
        | opposite => cases hzero
        | number =>
          simp only [isZero, value?, beq_iff_eq, Option.some.injEq] at hzero
          rw [number_num, hzero]
          exact BitVec.setWidth_zero _ _
      rw [value_pair _ hrigid, hstarts.value_eq σ hσ, hnumber, add_zero]
      rfl

end Arithmetic

/-! ### Operands -/

theorem becomes_neg_bits {n : Nat} {t : BitVec n} (hn : 1 < n) (hle : n ≤ 64)
    (h : Becomes c 6 z (.num (ofBits t) n))
    (hz : z.width = .ok w) : Becomes c 7 (.op .neg [z]) (.num (ofBits (-t)) n) := by
  have hneg : number (-ofBits t) n = .num (ofBits (-t)) n := by
    rw [number_eq, settle_eq_wrap (by omega), wrap, Int.toNat_natCast, low_neg hle, low_ofBits hle]
  rw [← hneg]
  exact .neg_number h hz (by omega)

namespace Source

variable {o : Arithmetic} {t : Source s} {σ σ' : State}

def added (o : Arithmetic) (r : Registers) (σ : State) (t : Source s) : BitVec s.bits :=
  if o.subtracts then
    match t with
    | short v _ _ => if s = .word then (-BitVec.ofInt 8 v).signExtend s.bits else -t.read r σ
    | _ => -t.read r σ
  else t.read r σ

/-- The number is the one of 8 bits that is its own negative, and 16 bits are asked for. -/
def Narrow (t : Source s) : Prop :=
  match t with
  | short v _ _ => s = .word ∧ BitVec.ofInt 8 v = 128#8
  | _ => False

theorem signExtend_neg : ∀ b : BitVec 8, (-b).signExtend 16 = -b.signExtend 16 ↔ b ≠ 128#8 := by
  decide +kernel

theorem added_eq_iff (r : Registers) (σ : State) (t : Source s) (ho : o.subtracts) :
    t.added o r σ = -t.read r σ ↔ ¬t.Narrow := by
  unfold added Narrow
  rw [if_pos ho]
  cases t with
  | short v t ht =>
    by_cases hs : s = .word
    · subst hs
      simpa using! signExtend_neg (.ofInt 8 v)
    · simp [hs]
  | place | number => simp

theorem Denotes.summand (ht : t.Denotes r e e') : Summand s e e' := by
  cases ht with
  | place h => exact .cell h.cell
  | number | extended => exact .number s.bits_pos (Int.le_refl _) (inferWidth_num _ _)
  | short v t ht hs => exact .number (by decide) (by cases s <;> decide) (inferWidth_short hs _)

section

variable (hop : Operates c s x z p e e') (ht : t.Denotes r e e')
    (hshort : e' = e ↔ ¬(s = .word ∧ t.kind = .short))

include hop ht hshort

theorem exists_summand_neg (ho : o.subtracts) :
    ∃ q q', Summand s q q' ∧ Becomes c 7 (.op .neg [z]) q ∧ (∀ σ, s.number r q' σ = t.added o r σ) ∧
      ∀ e₁, q = .op .neg [e₁] → e₁ = e := by
  obtain ⟨w, hw⟩ := hop.loose_second.exists_width
  have hbits := s.bits_le
  have hone : 1 < s.bits := by cases s <;> decide
  have hnumber {n : Nat} (k : BitVec n) (σ : State) : s.number r (.num (ofBits k) s.bits) σ =
    k.signExtend s.bits := by
    rw [number_num, low_ofBits_eq_signExtend hbits]
  cases ht with
  | place h =>
    have hneg := (h.cell.fixed hop.cleared).becomes_neg s.bits_pos s.admissible h.cell.isNumber_eq
      hop.second hw
    refine ⟨_, _, .opposite h.cell, hneg, fun σ => ?_, fun e₁ he => by cases he; rfl⟩
    rw [number_neg (h.cell.fixed open_empty).width_eq, Size.number, h.value_eq, low_ofBits hbits]
    simp only [added, ho, if_true]
    rfl
  | number v t ht =>
    refine ⟨_, _, .number s.bits_pos (Int.le_refl _) (inferWidth_num _ _),
      becomes_neg_bits hone hbits hop.second hw, fun σ => ?_, fun _ he => by cases he⟩
    rw [hnumber, BitVec.signExtend_eq]
    simp only [added, ho, if_true]
    rfl
  | extended v t ht =>
    have hs : s ≠ .word := fun hs => hshort.mp rfl ⟨hs, rfl⟩
    refine ⟨_, _, .number s.bits_pos (Int.le_refl _) (inferWidth_num _ _),
      becomes_neg_bits hone hbits hop.second hw, fun σ => ?_, fun _ he => by cases he⟩
    rw [hnumber, BitVec.signExtend_eq]
    simp only [added, ho, hs, if_true, if_false]
    rfl
  | short v t ht hs =>
    -- the number is negated with its 8 bits, and extended then
    obtain ⟨rfl, -⟩ : s = .word ∧ _ := by
      by_contra hne
      have heq := hshort.mpr hne
      cases s <;> simp [Size.bits] at heq hs
    refine ⟨_, _, .number (by decide) (by decide) (inferWidth_short hs _),
      becomes_neg_bits (by decide) (by decide) hop.second hw, fun σ => ?_, fun _ he => by cases he⟩
    rw [hnumber]
    simp only [added, ho, if_true]

theorem exists_summand (o : Arithmetic) : ∃ q q', Summand s q q' ∧ Becomes c 7 (o.signed z) q ∧
    Loose s (o.signed z) ∧
      (∀ σ, s.number r q' σ = t.added o r σ) ∧ ∀ e₁, q = .op .neg [e₁] → e₁ = e := by
  unfold Arithmetic.signed
  split
  · next ho =>
    obtain ⟨q, q', hq, hbecomes, hnumber, hne⟩ := exists_summand_neg hop ht hshort ho
    exact ⟨q, q', hq, hbecomes, hop.loose_second.neg, hnumber, hne⟩
  · next ho =>
    refine ⟨e, e', ht.summand, hop.second.mono (by decide), hop.loose_second,
      fun σ => ?_, fun e₁ he => ?_⟩
    · unfold added
      rw [Size.number, hop.addend.value_eq, ht.value_eq, low_ofBits s.bits_le, if_neg ho]
    · subst he
      cases hop.addend with
      | cell h => cases h

end

end Source

/-! ### Registers that share no bits -/

/-- Where the bits of a register are: the number of the register around it, and its first bit there.
-/
def Size.home (s : Size) (n : Fin 8) : Nat × Nat :=
  match s with
  | byte => (37 + n % 4, if n < 4 then 0 else 8)
  | word | dword => (37 + n, 0)

theorem Standard.place_eq {arch : Architecture} (h : Standard arch) (s : Size) (n : Fin 8) :
    arch.vars.place (s.var n) = s.home n := by
  have hparent (s : Size) (n : Fin 8) := (h.general s (by cases s <;> decide) n).2
  have hdword (n : Fin 8) : arch.vars.place (Size.dword.var n) = Size.dword.home n :=
    Registers.place_whole (hparent .dword n)
  have hword (n : Fin 8) : arch.vars.place (Size.word.var n) = Size.word.home n := by
    have hlt : (Size.dword.var n).index < (Size.word.var n).index := by
      change 37 + (n : Nat) < 45 + n
      omega
    rw [Registers.place, hparent .word n]
    change (if (Size.dword.var n).index < (Size.word.var n).index then _ else _) = _
    rw [if_pos hlt, hdword]
    rfl
  cases s with
  | dword => exact hdword n
  | word => exact hword n
  | byte =>
    have hlt : (Size.word.var ⟨n % 4, by omega⟩).index < (Size.byte.var n).index := by
      change 45 + (n : Nat) % 4 < 53 + n
      omega
    have hfirst : number (.ofNat (if n < 4 then 0 else 8)) 8 = .num (if n < 4 then 0 else 8) 8 := by
      split <;> rfl
    rw [Registers.place, hparent .byte n]
    simp only [Size.around, Option.map_some, hfirst]
    rw [if_pos hlt, hword]
    simp only [Size.home]
    split <;> rfl

theorem read_write_of_ne {n m : Fin 8} (hne : n ≠ m) (ρ : Registers.File)
    (b : BitVec (s.var n).width.toNat) :
    architecture.vars.read (architecture.vars.write ρ (s.var n) b) (s.var m) =
    architecture.vars.read ρ (s.var m) := by
  refine Registers.read_write_of_apart b fun i j hbit hbit' => hne ?_
  unfold Registers.Bit at hbit hbit'
  rw [standard_architecture.place_eq] at hbit hbit'
  have hwidth (n : Fin 8) : (s.var n).width.toNat = s.bits := by cases s <;> rfl
  rw [hwidth] at hbit hbit'
  apply Fin.ext
  cases s with
  | byte =>
    simp only [Size.home, Size.bits] at hbit hbit'
    split at hbit <;> split at hbit' <;> omega
  | word | dword =>
    simp only [Size.home] at hbit hbit'
    omega

namespace Arithmetic

variable {o : Arithmetic} {n : Nat}

/-! ### Flags -/

def carryOut (o : Arithmetic) (x y : BitVec n) (d : Bool) : Bool :=
  if o.subtracts then decide (x.toNat < y.toNat + d.toNat) else
  decide (2 ^ n ≤ x.toNat + y.toNat + d.toNat)

theorem carry_status (hn : 0 < n) (x y : BitVec n) (d : Bool) (hc : o.carries) :
    (o.status x y d).carry = o.carryOut x y d := by
  have hlt := (o.result x y d).isLt
  unfold status exact carryOut
  rw [hc, Bool.true_and]
  split
  · next ho =>
    have hcases := difference_cases hn x y d ho
    rw [hc, Bool.true_and] at hcases
    refine decide_eq_decide.mpr ?_
    omega
  · next ho =>
    have hcases := sum_cases x y d (by simpa using ho)
    rw [hc, Bool.true_and] at hcases
    refine decide_eq_decide.mpr ?_
    omega

/-- The carry flag of a difference is wrong exactly if there is a carry and the operands are the
same. -/
theorem carry_shown_iff (hn : 0 < n) (x y t : BitVec n) (d : Bool) (hc : o.carries)
    (ht : o.subtracts = false → t = o.result x y d) :
    (o.shown x y t).carry = o.carryOut x y d ↔ ¬(o.subtracts ∧ d ∧ x = y) := by
  cases ho : o.subtracts with
  | false =>
    rw [ht ho, shown_sum hn x y d ho, carry_status hn x y d hc]
    simp
  | true =>
    unfold shown carryOut
    simp only [ho, if_true, BitVec.ult_eq_decide, decide_eq_decide, true_and, ← BitVec.toNat_inj]
    cases d <;> simp
    omega

/-- The zero flag of a difference is wrong exactly if there is a carry and the operands differ by at
most one. -/
theorem zero_shown_iff (hn : 0 < n) (x y t : BitVec n) (d : Bool) (hc : o.carries)
    (ht : o.subtracts = false → t = o.result x y d) :
    (o.shown x y t).zero = (o.result x y d == 0) ↔ ¬(o.subtracts ∧ d ∧ (x = y ∨ x = y + 1)) := by
  cases ho : o.subtracts with
  | false =>
    rw [ht ho]
    simp [shown, ho]
  | true =>
    unfold shown result
    simp only [ho, hc, if_true, Bool.true_and, beq_eq_decide, decide_eq_decide, true_and]
    cases d with
    | false =>
      simp only [Bool.toNat_false, BitVec.sub_zero, Bool.false_eq_true, false_and,
        not_false_eq_true, iff_true]
      exact sub_eq_zero.symm
    | true =>
      have hone : (1 : BitVec n) ≠ 0 := by
        intro heq
        have hnat := congrArg BitVec.toNat heq
        have hpow := Nat.one_lt_two_pow hn.ne'
        simp [Nat.mod_eq_of_lt hpow] at hnat
      have hapart : x = y → x ≠ y + 1 := by
        rintro rfl h
        exact hone (left_eq_add.mp h)
      have hnext : x - y - .ofNat n true.toNat = 0 ↔ x = y + 1 := by
        rw [sub_sub, sub_eq_zero]
        rfl
      rw [hnext]
      tauto

/-! ### Instructions -/

section

variable {p : Place s} {y : Source s} {i : Instruction} {a e e' : Expr} {r : Registers}

/-- What an operation with carry leaves in its first operand. -/
def left (o : Arithmetic) (p : Place s) (y : Source s) (r : Registers) (σ : State) :
    BitVec s.bits :=
  p.read r σ + y.added o r σ + if o.subtracts then -BitVec.ofNat s.bits (σ.flag r CF).toNat
    else BitVec.ofNat s.bits (σ.flag r CF).toNat

theorem left_eq_result_iff (p : Place s) (y : Source s) (r : Registers) (σ : State)
    (hc : o.carries) :
    o.left p y r σ = o.result (p.read r σ) (y.read r σ) (σ.flag r CF) ↔
    ¬(o.subtracts ∧ y.Narrow) := by
  unfold left result
  rw [hc, Bool.true_and]
  cases ho : o.subtracts with
  | false => simp [Source.added, ho]
  | true =>
    have hadded := y.added_eq_iff r σ ho
    simp only [if_true, ← sub_eq_add_neg, sub_left_inj, true_and, ← hadded]
    rw [sub_eq_add_neg, add_right_inj]

theorem left_of_alike {σ σ' : State} (hr : Complete r) (hp : p.Denotes r a) (y : Source s)
    (h : State.Alike σ σ')
    (hflags : ∀ x ∈ flagVars, σ'.flag r x = σ.flag r x) : o.left p y r σ' = o.left p y r σ := by
  have hadded : y.added o r σ' = y.added o r σ := by
    simp only [Source.added, y.read_of_alike hr h]
  rw [left, left, hp.read_of_alike hr h, hadded, hflags CF (by decide)]

theorem computes_left (h : Operates c s x z a e e') (hb : Start s x a b q) (hp : p.Denotes r a)
    (hy : y.Denotes r e e')
    (hshort : e' = e ↔ ¬(s = .word ∧ y.kind = .short)) (hdiffers : e.equals a = false)
    (hc : o.carries) : Computes r False c s (Saved r s a) a (o.sum s b z) (o.left p y r) := by
  obtain ⟨q₁, q₂, hq, hz, hloose, hadded, hneg⟩ := Source.exists_summand h hy hshort o
  have hne : ∀ e₁, q₁ = .op .neg [e₁] → e₁.equals q = false := by
    rintro e₁ rfl
    obtain rfl := hneg e₁ rfl
    cases hb with
    | place => exact hdiffers
    | saved =>
      cases hq with
      | cell hcell => cases hcell
      | opposite hcell => exact hcell.equals_scratch
  have hsum : o.sum s b z = .op .plus [b, o.signed z, o.carried s unknownWidth] := by
    rw [sum, hc]
    rfl
  rw [hsum]
  refine (computes_carried h hb hq hz hloose hne).congr fun σ => ?_
  have hfirst : s.number r a σ = p.read r σ := by
    rw [Size.number, hp.value_eq, low_ofBits s.bits_le]
  rw [hfirst, hadded, number_carried, left]

section

variable (h : o.admits s p.kind y.kind) (hc : o.carries) (hy : y ≠ .place p)

include h hc hy

theorem differs
    (hp : p.Denotes architecture.vars a) (hden : y.Denotes architecture.vars e e') :
    e.equals a = false := by
  refine (eq_or_differs complete_architecture h hp hden).resolve_left ?_
  rintro rfl
  cases hden with
  | number | extended | short => cases hp.cell
  | @place q _ hq =>
    cases p with
    | memory => simp [admits, Place.kind, hc] at h
    | register n =>
      cases q with
      | memory => simp [admits, Source.kind, Place.kind, hc] at h
      | register m =>
        have heq := (hp.eq_var complete_architecture).symm.trans (hq.eq_var complete_architecture)
        have hindex : (s.var n).index = (s.var m).index := by rw [var.inj heq]
        have hnm : n = m := by
          apply Fin.ext
          cases s <;> simp only [Size.var] at hindex <;> omega
        exact hy (by rw [hnm])

theorem read_write_other (σ : State)
    (b : BitVec s.bits) : y.read architecture.vars (p.write architecture.vars σ b) =
    y.read architecture.vars σ := by
  cases p with
  | memory => simp [admits, Place.kind, hc] at h
  | register n =>
    cases y with
    | number | short => rfl
    | place q =>
      cases q with
      | memory => simp [admits, Source.kind, Place.kind, hc] at h
      | register m =>
        have hne : n ≠ m := fun heq => hy (by rw [heq])
        exact congrArg (BitVec.setWidth s.bits) (read_write_of_ne hne σ.file _)

end

theorem Encodes.exists_left (h : Encodes i o p y) (hc : o.carries) (hy : y ≠ .place p)
    (summarize : Bool) (address : Int64) :
    ∃ ss, i.lift architecture summarize address = .ok ss ∧ ∀ σ : State, ∃ σ',
    σ.execute architecture.vars ss = some σ' ∧
      State.Alike (p.write architecture.vars σ (o.left p y architecture.vars σ)) σ' ∧
      p.read architecture.vars σ' = o.left p y architecture.vars σ ∧
      σ'.status architecture.vars = o.shown (p.read architecture.vars σ)
      (y.read architecture.vars σ)
        (o.left p y architecture.vars σ) := by
  obtain ⟨a, hp⟩ := p.exists_denotes complete_architecture
  obtain ⟨e, e', hbinds, hden, he⟩ := exists_binds complete_architecture h.admits hp
  rw [hc] at he
  have hdiffers := differs h.admits hc hy hp hden
  obtain ⟨ss, hss, hrun⟩ := h.exists_lift hp hden hbinds
    (fun σ σ' halike hflags => left_of_alike complete_architecture hp y halike hflags)
    (fun hop hb => computes_left hop hb hp hden (by simpa using he) hdiffers hc) summarize address
  refine ⟨ss, hss, fun σ => ?_⟩
  obtain ⟨σ', hσ', halike, hread, hstatus⟩ := hrun σ
  refine ⟨σ', hσ', halike, hread, ?_⟩
  rw [hstatus, y.read_of_alike complete_architecture halike, read_write_other h.admits hc hy]

/-- **Addition and subtraction with carry.** Lifted instructions leave the sum or the difference of
their operands and the carry flag, unless the narrow number is subtracted from 16 bits. After a sum,
the carry flag is the carry of the exact sum. After a difference it is so unless there was a carry
and the operands are the same, and the zero flag tells whether the result is zero unless there was a
carry and the operands differ by at most one. -/
theorem lift_carried (h : Encodes i o p y) (hc : o.carries = true) (hy : y ≠ .place p)
    (summarize : Bool) (address : Int64) :
    ∃ ss, i.lift architecture summarize address = .ok ss ∧ ∀ σ : State, ∃ σ',
    σ.execute architecture.vars ss = some σ' ∧
      State.Alike (p.write architecture.vars σ (p.read architecture.vars σ')) σ' ∧
      (p.read architecture.vars σ' = o.result (p.read architecture.vars σ)
      (y.read architecture.vars σ)
          (σ.flag architecture.vars CF) ↔ ¬(o.subtracts = true ∧ y.Narrow)) ∧
      ((σ'.status architecture.vars).carry = o.carryOut (p.read architecture.vars σ)
      (y.read architecture.vars σ)
          (σ.flag architecture.vars CF) ↔
        ¬(o.subtracts = true ∧ σ.flag architecture.vars CF = true ∧
          p.read architecture.vars σ = y.read architecture.vars σ)) ∧
      ((σ'.status architecture.vars).zero =
      (o.result (p.read architecture.vars σ) (y.read architecture.vars σ)
          (σ.flag architecture.vars CF) == 0) ↔
        ¬(o.subtracts = true ∧ σ.flag architecture.vars CF = true ∧
          (p.read architecture.vars σ = y.read architecture.vars σ ∨
            p.read architecture.vars σ = y.read architecture.vars σ + 1))) := by
  obtain ⟨ss, hss, hrun⟩ := h.exists_left hc hy summarize address
  refine ⟨ss, hss, fun σ => ?_⟩
  obtain ⟨σ', hσ', halike, hread, hstatus⟩ := hrun σ
  have hleft := left_eq_result_iff p y architecture.vars σ hc
  have hsum (ho : o.subtracts = false) := hleft.mpr (by simp [ho])
  have hpos : 0 < s.bits := by cases s <;> decide
  refine ⟨σ', hσ', ?_⟩
  rw [hread, hstatus]
  exact ⟨halike, hleft, carry_shown_iff hpos _ _ _ _ hc hsum, zero_shown_iff hpos _ _ _ _ hc hsum⟩

end

/-- The carry flag is added to EAX and EBX. -/
theorem lift_adc_registers : ∃ ss,
    (Instruction.mk "adcl" default [.register (.dword 0), .register (.dword 3)] 2 {}).lift
    architecture false 4096 = .ok ss ∧
      ∀ σ : State, ∃ σ', σ.execute architecture.vars ss = some σ' ∧
        (Place.register 0 : Place .dword).read architecture.vars σ' =
          result ⟨false, true⟩ ((Place.register 0 : Place .dword).read architecture.vars σ)
            ((Place.register 3 : Place .dword).read architecture.vars σ)
            (σ.flag architecture.vars CF) ∧
        (σ'.status architecture.vars).carry =
          carryOut ⟨false, true⟩ ((Place.register 0 : Place .dword).read architecture.vars σ)
            ((Place.register 3 : Place .dword).read architecture.vars σ)
            (σ.flag architecture.vars CF) := by
  have hencodes : Encodes (s := .dword)
      ⟨"adcl", default, [.register (.dword 0), .register (.dword 3)], 2, {}⟩ ⟨false, true⟩
      (.register 0)
      (.place (.register 3)) := ⟨by decide, rfl, by decide, rfl⟩
  obtain ⟨ss, hss, hrun⟩ := lift_carried hencodes rfl (by simp) false 4096
  refine ⟨ss, hss, fun σ => ?_⟩
  obtain ⟨σ', hσ', -, hread, hcarry, -⟩ := hrun σ
  exact ⟨σ', hσ', hread.mpr (by simp), hcarry.mpr (by simp)⟩

def carrying : State := ⟨fun i _ => i == CF.index, fun _ => 0, fun _ => 0⟩

theorem flag_carrying : carrying.flag architecture.vars CF := by
  rw [State.flag, Registers.getLsbD_read (by decide),
    Registers.place_whole (standard_architecture.wholes CF (by decide))]
  rfl

theorem read_carrying (n : Fin 8) :
    (Place.register n : Place .dword).read architecture.vars carrying = 0 := by
  have hread : architecture.vars.read carrying.file (Size.dword.var n) = 0 := by
    apply BitVec.eq_of_getLsbD_eq
    intro k hk
    have hne : 37 + (n : Nat) ≠ 23 := by omega
    rw [Registers.getLsbD_read hk, standard_architecture.place_eq]
    simpa [Size.home, carrying, CF] using hne
  rw [Place.read, Size.shown, hread]
  rfl

/-- If EAX and EBX are zero, their difference with carry has to borrow, but the carry flag is
cleared. -/
theorem lift_sbb_zeros : ∃ ss σ',
    (Instruction.mk "sbbl" default [.register (.dword 0), .register (.dword 3)] 2 {}).lift
    architecture false 4096 = .ok ss ∧
      carrying.execute architecture.vars ss = some σ' ∧ carrying.flag architecture.vars CF = true ∧
      (Place.register 0 : Place .dword).read architecture.vars carrying = 0 ∧
      (Place.register 3 : Place .dword).read architecture.vars carrying = 0 ∧
      (Place.register 0 : Place .dword).read architecture.vars σ' = BitVec.allOnes 32 ∧
      (σ'.status architecture.vars).carry = false ∧ (σ'.status architecture.vars).zero = true ∧
      carryOut ⟨true, true⟩ 0#32 0#32 true = true := by
  have hencodes : Encodes (s := .dword)
      ⟨"sbbl", default, [.register (.dword 0), .register (.dword 3)], 2, {}⟩ ⟨true, true⟩
      (.register 0)
      (.place (.register 3)) := ⟨by decide, rfl, by decide, rfl⟩
  obtain ⟨ss, hss, hrun⟩ := hencodes.exists_left rfl (by simp) false 4096
  obtain ⟨σ', hσ', -, hread, hstatus⟩ := hrun carrying
  have hsecond : (Source.place (.register 3) : Source .dword).read architecture.vars carrying = 0 :=
    read_carrying 3
  have hadded : (Source.place (.register 3) : Source .dword).added ⟨true, true⟩ architecture.vars
    carrying = 0 := by
    simp only [Source.added, hsecond, if_true, neg_zero]
  rw [read_carrying, hsecond] at hstatus
  rw [left, read_carrying, hadded, flag_carrying] at hread
  refine ⟨ss, σ', hss, hσ', flag_carrying, read_carrying 0, read_carrying 3,
    hread.trans rfl, ?_, ?_, by decide⟩
  · rw [hstatus]
    rfl
  · rw [hstatus]
    rfl

end Arithmetic

end FlowRecovery.IA32
