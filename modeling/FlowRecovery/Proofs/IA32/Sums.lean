import FlowRecovery.Proofs.IA32.Signs

/-!
# Sums and differences that are assigned

A template assigns a sum that starts with its first operand, or with the copy of it in the scratch
register (`Starts`). If there is nothing to compute in the sum, it is assigned as it is
(`assigned_sum`). Otherwise a number is zero and is not added, or an operand is subtracted from
itself.

In all cases what is assigned is the sum (`Operates.computes_sum`) or the difference
(`Operates.computes_difference`) of the numbers in the operands, modulo the number of bits.
-/

namespace FlowRecovery.IA32

open FlowRecovery.Expr Word List

variable {c : Context} {s : Size} {a b e e' p t x y z : Expr} {n : Nat} {u w : Int} {r : Registers} {v : Int64} {m : Prop}
  {K : State → Prop}

/-! ### Sums that are assigned -/

theorem exists_operationWidth {as : List Expr} (hne : as ≠ []) (h : ∀ a ∈ as, Loose s a) :
    ∃ w, operationWidth .plus as (widths as) = .ok w ∧ (w = unknownWidth ∨ w = s.bits) := by
  have hpos : ¬(s.bits : Int) ≤ 0 := not_le.mpr s.bits_pos
  have hgo (us : List Expr) (hus : ∀ a ∈ us, Loose s a) :
      ∃ w, commonWidth.go s.bits (us.map width) = .ok w ∧ (w = unknownWidth ∨ w = s.bits) := by
    induction us with
    | nil => exact ⟨_, rfl, .inr rfl⟩
    | cons a us ih =>
      obtain ⟨ha, hrest⟩ := forall_mem_cons.mp hus
      rw [map_cons]
      rcases ha with ha | ha
      · rw [ha]
        exact ⟨unknownWidth, rfl, .inl rfl⟩
      · obtain ⟨w, hw, hcases⟩ := ih hrest
        rw [ha]
        change ∃ w, (if (s.bits : Int) ≤ 0 then _ else commonWidth.go (max s.bits s.bits) (us.map width)) = .ok w ∧ _
        rw [if_neg hpos, max_self]
        exact ⟨w, hw, hcases⟩
  match as, hne with
  | a :: as, _ =>
    obtain ⟨ha, hrest⟩ := forall_mem_cons.mp h
    change ∃ w, commonWidth (widths (a :: as)) = .ok w ∧ _
    rw [widths_eq_map, map_cons]
    rcases ha with ha | ha
    · rw [ha]
      exact ⟨unknownWidth, rfl, .inl rfl⟩
    · rw [ha]
      change ∃ w, (if (s.bits : Int) ≤ 0 then _ else commonWidth.go s.bits (as.map width)) = .ok w ∧ _
      rw [if_neg hpos]
      exact hgo as hrest

theorem Loose.neg (h : Loose s e) : Loose s (.op .neg [e]) := h

/-- A summand that no pass of lifting changes any more. -/
structure Stable (w : Int) (e : Expr) : Prop where
  becomes : Becomes .empty 7 e e
  inferWidth_eq : e.inferWidth w = .ok e
  plain : Plain e

theorem Fixed.stable (h : Fixed .empty w e) : Stable w e :=
  ⟨h.becomes.mono (by decide), h.inferWidth_eq, h.plain⟩

theorem Fixed.becomes_neg (h : Fixed c w e) (hw : 0 < w) (hadm : Admissible w) (hnum : e.isNumber = false)
    (hx : Becomes c 6 x e) (hwidth : x.width = .ok u) : Becomes c 7 (.op .neg [x]) (.op .neg [e]) :=
  .neg hx hwidth h.width_eq hw.ne' hadm hnum (h.flat .neg) (h.flat .plus)

theorem Fixed.stable_neg (h : Fixed .empty w e) (hw : 0 < w) (hadm : Admissible w) (hnum : e.isNumber = false) :
    Stable w (.op .neg [e]) where
  becomes := h.becomes_neg hw hadm hnum h.becomes h.width_eq
  inferWidth_eq := by
    rw [inferWidth_op (.cons h.inferWidth_eq .nil) (by simp)]
    exact operation_neg_of_flat h.width_eq hadm (h.flat .neg) (h.flat .plus)
  plain := plain_op (applyRules_inequalities nofun nofun nofun) (by simp [h.plain])

theorem assigned_of_evaluate {as as' : List Expr} (ht : Held m s t) (h : z.evaluate c = .ok (.op .plus as))
    (hinfer : Forall₂ (fun a a' => a.inferWidth s.bits = .ok a') as as') (hrigid : Rigid s.bits as')
    (hstable : ∀ a ∈ as', Stable s.bits a) : Assigned c t s.bits z (.op .plus as') := by
  have hwidth : (op .plus as).inferWidth s.bits = .ok (.op .plus as') := by
    rw [inferWidth_op hinfer (by simp)]
    exact hrigid.operation_eq
  have hagain : (op .plus as').evaluate .empty = .ok (.op .plus as') :=
    (Becomes.sum (forall₂_same.mpr fun a ha => (hstable a ha).becomes) hrigid.width_eq hrigid).evaluate (by decide)
  have hplain : Plain (.op .plus as') := by
    have hlen := hrigid.two_le
    match as', hlen with
    | a :: as', _ => exact plain_op (applyRules_inequalities nofun nofun nofun) fun a ha => (hstable a ha).plain
  have hdiffers (bs : List Expr) : t.equals (.op .plus bs) = false := by
    cases ht with
    | cell h => cases h <;> rfl
    | scratch => rfl
  exact ⟨_, _, _, _, h, hdiffers _, hwidth, hagain, hdiffers _, hagain, hplain.simplify, hdiffers _⟩

theorem assigned_sum {old as as' : List Expr} (ht : Held m s t) (hold : ∀ a ∈ old, Loose s a)
    (h : Forall₂ (Becomes c 7) old as) (hrigid : Rigid s.bits as)
    (hinfer : Forall₂ (fun a a' => a.inferWidth s.bits = .ok a') as as') (hrigid' : Rigid s.bits as')
    (hstable : ∀ a ∈ as', Stable s.bits a) : Assigned c t s.bits (.op .plus old) (.op .plus as') := by
  have hne : old ≠ [] := by
    rintro rfl
    cases h
    exact absurd hrigid.two_le (by decide)
  obtain ⟨w', hw', -⟩ := exists_operationWidth hne hold
  exact assigned_of_evaluate ht ((Becomes.sum h hw' hrigid).evaluate (by decide)) hinfer hrigid' hstable

def Size.number (s : Size) (r : Registers) (e : Expr) (σ : State) : BitVec s.bits :=
  low s.bits (value (σ.machine r) e)

theorem Size.admissible (s : Size) : Admissible s.bits := .inr (by cases s <;> rfl)

/-- A sum that is assigned to `t` starts with `b`. This becomes `a`, which has the number of the
first operand `p` in the states `K`. -/
structure Starts (r : Registers) (m : Prop) (c : Context) (s : Size) (p b a t : Expr) (K : State → Prop) : Prop where
  becomes : Becomes c 6 b a
  loose : Loose s b
  held : Held m s a
  target : Held m s t
  apart : t = a ∧ a = p ∨ t.equals a = false
  value_eq (σ : State) (h : K σ) : value (σ.machine r) a = value (σ.machine r) p

theorem Starts.number_eq (h : Starts r m c s p b a t K) {σ : State} (hσ : K σ) : s.number r a σ = s.number r p σ := by
  rw [Size.number, h.value_eq σ hσ, Size.number]

/-- The first summand of a template and what it becomes: the first operand, or its copy in the
scratch register. -/
inductive Start (s : Size) (x p : Expr) : Expr → Expr → Prop where
  | place : Start s x p x p
  | saved : Start s x p (.var s.scratch) (.var s.scratch)

theorem Cell.equals_scratch (h : Cell s p) : p.equals (.var s.scratch) = false := by
  cases h with
  | register n =>
    have := (s.has_var n).ne_scratch
    simp [equals, this]
  | memory => rfl

theorem Start.starts (h : Start s x p b a) (hop : Operates c s x y p e e') :
    Starts r False c s p b a p (Saved r s p) := by
  have hp : Held False s p := .cell hop.cell nofun
  cases h with
  | place => exact ⟨hop.first, hop.loose_first, hp, hp, .inl ⟨rfl, rfl⟩, fun _ _ => rfl⟩
  | saved =>
    exact ⟨((Held.scratch (m := False)).fixed hop.cleared).becomes, .inr (by cases s <;> rfl), .scratch, hp,
      .inr hop.cell.equals_scratch, fun _ hσ => hσ⟩

theorem Start.differs (h : Start s x p b a) (hop : Operates c s x y p e e')
    (hpe : p = e ∨ e.equals p = false) : a = e ∨ e.equals a = false := by
  cases h with
  | place => exact hpe
  | saved =>
    refine .inr ?_
    cases hop.addend with
    | cell h => exact h.equals_scratch
    | number => rfl

theorem rigid_pair (ha : Held m s a) (hwidth : b.width = .ok s.bits) (hzero : b.isZero = false)
    (hflat : operandsOf .plus b = none)
    (hcancel : ∀ y ys, b = .op .neg (y :: ys) → y.equals a = false ∧ y.equals b = false) : Rigid s.bits [a, b] where
  pos := s.bits_pos
  admissible := s.admissible
  two_le := Nat.le_refl 2
  width_eq := operationWidth_pair rfl s.bits_pos (ha.fixed open_empty).width_eq hwidth
  isZero_eq := by simpa using ⟨isZero_of_isNumber ha.isNumber_eq, hzero⟩
  flat := by simpa using ⟨(ha.fixed open_empty).flat .plus, hflat⟩
  numbers := by
    have hvalue : a.value? = none := by
      have hnum := ha.isNumber_eq
      unfold isNumber at hnum
      cases h : a.value? <;> simp_all
    cases h : b.value? <;> simp [hvalue, h]
  cancels y ys hmem := by
    have hnot : (.op .neg (y :: ys)) ≠ a := by
      rintro rfl
      cases ha with
      | cell ha => cases ha
    simp only [mem_cons, hnot, not_mem_nil, or_false, false_or] at hmem
    simpa using hcancel y ys hmem.symm

theorem value_pair (μ : Machine) (h : Rigid s.bits [a, b]) :
    value μ (.op .plus [a, b]) = ofBits (low s.bits (value μ a) + low s.bits (value μ b)) := by
  rw [value_op μ (show (op .plus [a, b]).width = .ok s.bits from h.width_eq), ← low_add s.bits_le]
  change wrap s.bits (value μ a + (value μ b + 0)) = _
  rw [Int64.add_zero]
  rfl

theorem ofRegisters_pair (ha : OfRegisters m s.bits a) (hb : OfRegisters m s.bits b) :
    OfRegisters m s.bits (.op .plus [a, b]) :=
  fun hm => .regroup rfl (fun _ => trivial) (Nat.le_refl 2) s.admissible (by simpa using ⟨ha hm, hb hm⟩)

theorem computes_pair {z' : Expr} (hb : Starts r m c s p b a t K) (hz : Becomes c 7 z z') (hwidth : Loose s z)
    (hstable : Stable s.bits z') (hmade : OfRegisters m s.bits z') (hrigid : Rigid s.bits [a, z']) :
    Computes r m c s K t (.op .plus [b, z]) fun σ => s.number r p σ + s.number r z' σ := by
  have ha := hb.held.fixed open_empty
  have hall : ∀ q ∈ [a, z'], Stable s.bits q := by simpa using ⟨ha.stable, hstable⟩
  refine .assigns (q := .op .plus [a, z']) ?_ (ofRegisters_pair hb.held.ofRegisters hmade) fun σ hσ => ?_
  · exact assigned_sum hb.target (by simpa using ⟨hb.loose, hwidth⟩)
      (.cons (hb.becomes.mono (by decide)) (.cons hz .nil)) hrigid
      (forall₂_same.mpr fun q hq => (hall q hq).inferWidth_eq) hrigid hall
  · rw [value_pair _ hrigid, hb.value_eq σ hσ]
    rfl

theorem Cell.ofBits_number (h : Cell s p) (σ : State) : ofBits (s.number r p σ) = value (σ.machine r) p :=
  h.fits σ

theorem number_num (σ : State) : s.number r (.num v w) σ = low s.bits v := by
  rw [Size.number, value_num]

theorem number_neg (hwidth : a.width = .ok s.bits) (σ : State) : s.number r (.op .neg [a]) σ = -s.number r a σ := by
  have hbits := s.bits_le
  rw [Size.number, value_op _ (show (op .neg [a]).width = .ok s.bits from hwidth), Size.number,
    ← low_neg hbits]
  exact @low_wrap s.bits (by omega) _

theorem Operates.computes_number (h : Operates c s x y p e e') (hb : Starts r m c s p b a t K)
    (hz : Becomes c 7 z (.num v s.bits)) (hwidth : Loose s z) (hv : Fits s.bits v) :
    Computes r m c s K t (.op .plus [b, z]) fun σ => s.number r p σ + low s.bits v := by
  have ha := hb.held.fixed open_empty
  by_cases hzero : v = 0
  · subst hzero
    have hwidths : ∀ q ∈ [b, z], Loose s q := by simpa using ⟨hb.loose, hwidth⟩
    obtain ⟨w', hw', -⟩ := exists_operationWidth (by simp) hwidths
    have hsum : Becomes c 8 (.op .plus [b, z]) a :=
      .plus_zero hb.held.isNumber_eq (ha.flat .neg) (hb.becomes.mono (by decide)) hw' ha.width_eq s.bits_pos hz
        ((hb.held.fixed h.cleared).becomes.mono (by decide))
    have hzero (σ : State) : s.number r p σ = s.number r p σ + low s.bits 0 := by
      rw [show low s.bits 0 = 0#s.bits from BitVec.setWidth_zero _ _, BitVec.add_zero]
    refine Computes.congr ?_ hzero
    rcases hb.apart with ⟨rfl, rfl⟩ | hdiffers
    · exact .vanishes h.cell (hsum.evaluate (by decide)) fun σ => (h.cell.ofBits_number σ).symm
    · have hagain := ha.becomes.evaluate (by decide)
      refine .assigns ⟨_, _, _, _, hsum.evaluate (by decide), hdiffers, ha.inferWidth_eq, hagain, hdiffers, hagain,
        ha.plain.simplify, hdiffers⟩ hb.held.ofRegisters fun σ hσ => ?_
      rw [hb.value_eq σ hσ, h.cell.ofBits_number]
  · have hrigid : Rigid s.bits [a, .num v s.bits] :=
      rigid_pair hb.held rfl (by simpa [isZero, value?] using hzero) rfl nofun
    exact (computes_pair hb hz hwidth (fixed_num .empty v s.bits).stable (fun _ => .num s.width_registerWords hv)
      hrigid).congr fun σ => by rw [number_num]

/-- The operand is a cell, or a number that fits. -/
inductive Whole (s : Size) : Expr → Prop where
  | cell {e : Expr} (h : Cell s e) : Whole s e
  | number {v : Int64} (h : Fits s.bits v) : Whole s (.num v s.bits)

section

variable (h : Operates c s x y p e e) (hb : Starts r m c s p b a t K)

include h hb

theorem Operates.computes_sum (he : Whole s e) (hmade : OfRegisters m s.bits e) :
    Computes r m c s K t (.op .plus [b, y]) fun σ => s.number r p σ + s.number r e σ := by
  have hy : Becomes c 7 y e := h.second.mono (by decide)
  cases he with
  | cell hcell =>
    have hfixed := hcell.fixed open_empty
    refine computes_pair hb hy h.loose_second hfixed.stable hmade (rigid_pair hb.held hfixed.width_eq
      (isZero_of_isNumber hcell.isNumber_eq) (hfixed.flat .plus) ?_)
    rintro z zs rfl
    cases hcell
  | number hv => exact (h.computes_number hb hy h.loose_second hv).congr fun σ => by rw [number_num]

theorem Operates.computes_apart (he : Cell s e) (hmade : OfRegisters m s.bits e) (hne : e.equals a = false) :
    Computes r m c s K t (.op .plus [b, .op .neg [y]]) fun σ => s.number r p σ - s.number r e σ := by
  obtain ⟨w, hwidth⟩ := h.loose_second.exists_width
  have hfixed := he.fixed open_empty
  have hneg := (he.fixed h.cleared).becomes_neg s.bits_pos s.admissible he.isNumber_eq h.second hwidth
  have hstable := hfixed.stable_neg s.bits_pos s.admissible he.isNumber_eq
  have hrigid : Rigid s.bits [a, .op .neg [e]] := by
    refine rigid_pair hb.held hfixed.width_eq rfl rfl ?_
    rintro z zs heq
    cases heq
    refine ⟨hne, ?_⟩
    cases he <;> rfl
  refine (computes_pair hb hneg h.loose_second.neg hstable (fun hm => .neg trivial s.admissible (hmade hm))
    hrigid).congr fun σ => ?_
  rw [number_neg hfixed.width_eq, BitVec.sub_eq_add_neg]

theorem Operates.computes_self (heq : a = e) :
    Computes r m c s K t (.op .plus [b, .op .neg [y]]) fun σ => s.number r p σ - s.number r e σ := by
  subst heq
  obtain ⟨w, hwidth⟩ := h.loose_second.exists_width
  have hfixed := hb.held.fixed h.cleared
  have hneg := hfixed.becomes_neg s.bits_pos s.admissible hb.held.isNumber_eq h.second hwidth
  have hwidths : ∀ q ∈ [b, .op .neg [y]], Loose s q := by simpa using ⟨hb.loose, h.loose_second.neg⟩
  obtain ⟨w', hw', -⟩ := exists_operationWidth (by simp) hwidths
  have hsum : Becomes c 8 (.op .plus [b, .op .neg [y]]) (.num 0 s.bits) := by
    rw [← number_of_fits s.one_lt_bits (wrap_zero s.bits)]
    exact .plus_neg_self hb.held.isNumber_eq (hfixed.flat .neg) (hb.becomes.mono (by decide)) hw' hfixed.width_eq s.bits_pos
      hneg hfixed.equals_self
  have hdiffers : t.equals (.num 0 s.bits) = false := hb.target.equals_num _ _
  refine .assigns (q := .num 0 s.bits) ⟨_, _, _, _, hsum.evaluate (by decide), hdiffers, inferWidth_num _ _, rfl, hdiffers,
    rfl, (plain_num _ _).simplify, hdiffers⟩ (fun _ => .num s.width_registerWords (wrap_zero _)) fun σ hσ => ?_
  rw [value_num, ← hb.number_eq hσ, BitVec.sub_self]
  exact (wrap_zero s.bits).symm.trans (congrArg ofBits (BitVec.setWidth_zero _ _))

theorem Operates.computes_difference (he : Whole s e) (hmade : OfRegisters m s.bits e) (hpe : a = e ∨ e.equals a = false) :
    Computes r m c s K t (.op .plus [b, .op .neg [y]]) fun σ => s.number r p σ - s.number r e σ := by
  cases he with
  | cell hcell =>
    rcases hpe with heq | hne
    · exact h.computes_self hb heq
    · exact h.computes_apart hb hcell hmade hne
  | @number v _ =>
    obtain ⟨w, hwidth⟩ := h.loose_second.exists_width
    have hbits := s.bits_le
    have hneg : Becomes c 7 (.op .neg [y]) (.num (wrap s.bits (-v)) s.bits) := by
      rw [← settle_eq_wrap s.one_lt_bits, ← number_eq]
      exact .neg_number h.second hwidth s.bits_pos.ne'
    refine (h.computes_number hb hneg h.loose_second.neg (fits_wrap _ _)).congr fun σ => ?_
    have hlow : low s.bits (wrap s.bits (-v)) = -low s.bits v :=
      (@low_wrap s.bits (by omega) _).trans (low_neg hbits v)
    rw [hlow, number_num, BitVec.sub_eq_add_neg]

end

end FlowRecovery.IA32
