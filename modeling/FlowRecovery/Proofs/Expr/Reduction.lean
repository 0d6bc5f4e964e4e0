import FlowRecovery.Proofs.Expr.Rules

/-!
# What becomes of an operation

`Expr.reduce` combines the rules of evaluation. Where the operation on the evaluated operands has a
width, it answers without a fault, with an expression of the same width that is no heavier and has
the same value (`reduce_spec`), with two exceptions (`IsFlawed`):

* a disjunction of an operand and its negation, which is not taken for the number with all bits set;
* a sum of truth values of which an even number is *true*, which are combined to *true*.
-/

namespace FlowRecovery

open List Operator

open Word hiding not_and not_or

def Operator.isBinary : Operator → Bool
  | xor | equal | less | lessOrEqual | unsignedLess | unsignedLessOrEqual | mul | shl | shr | sar | div | mod => true
  | _ => false

theorem Operator.isBinary_of_isComparison {o : Operator} (h : o.isComparison) : o.isBinary := by
  cases o <;> first | rfl | cases h

theorem Operator.isBinary_of_resizes {o : Operator} {w w' u : Int} (h : o.Resizes w w' u) : o.isBinary := by
  cases o <;> first | rfl | cases h

namespace Expr

variable {Γ : Vocabulary} {o : Operator} {old as : List Expr} {a b e r : Expr} {w : Int}

/-- The expression `r` stands for the expression `e` of `w` bits and is no heavier. -/
def Improves (Γ : Vocabulary) (w : Int) (e r : Expr) : Prop :=
  HasWidth Γ r w ∧ Lighter e r ∧ ∀ σ, value σ r = value σ e

theorem Improves.sound {x : Faulty Expr} (h : ∃ r, x = .ok r ∧ Improves Γ w e r) :
    ∃ r, x = .ok r ∧ (Reduction.done r).Sound Γ w e :=
  h.imp fun _ h => ⟨h.1, .done h.2.1 h.2.2.1, h.2.2.2⟩

theorem improves_number {v : Int64} (h : HasWidth Γ (.op o as) w) (hne : as ≠ [])
    (hvalue : ∀ σ, value σ (.op o as) = settle w v) : Improves Γ w (.op o as) (number v w) :=
  ⟨hasWidth_number h.width_eq.2 v, lighter_of_lt (weight_number_lt hne _ _), fun σ => by
    rw [value_number, hvalue]⟩

/-! ### Combining numbers -/

def numbersOf (as : List Expr) : List Int64 := as.filterMap value?

def othersOf (as : List Expr) : List Expr := as.filter (fun a => !a.isNumber)

variable {v : Int64}

theorem numbersOf_cons_of_some (h : a.value? = some v) : numbersOf (a :: as) = v :: numbersOf as := by
  simp [numbersOf, h]

theorem numbersOf_cons_of_none (h : a.value? = none) : numbersOf (a :: as) = numbersOf as := by
  simp [numbersOf, h]

theorem othersOf_cons_of_some (h : a.value? = some v) : othersOf (a :: as) = othersOf as := by
  simp [othersOf, isNumber, h]

theorem othersOf_cons_of_none (h : a.value? = none) : othersOf (a :: as) = a :: othersOf as := by
  simp [othersOf, isNumber, h]

variable (σ : Machine)

theorem total_split (o : Operator) (as : List Expr) :
    o.total (as.map (value σ)) = o.mix (o.total ((othersOf as).map (value σ))) (o.total (numbersOf as)) := by
  induction as with
  | nil => exact (o.unit_mix o.unit).symm
  | cons a as ih =>
    rw [map_cons, total_cons, ih]
    cases h : a.value? with
    | some v =>
      rw [numbersOf_cons_of_some h, othersOf_cons_of_some h, total_cons, value_of_value? σ h, ← o.mix_assoc,
        ← o.mix_assoc, o.mix_comm v]
    | none => rw [numbersOf_cons_of_none h, othersOf_cons_of_none h, map_cons, total_cons, o.mix_assoc]

theorem loads_split (o : Operator) (as : List Expr) :
    loads o as = loads o (othersOf as) + (numbersOf as).length * load o (.num 0 1) := by
  induction as with
  | nil => simp [othersOf, numbersOf, loads]
  | cons a as ih =>
    rw [loads, ih]
    cases h : a.value? with
    | some v =>
      obtain ⟨u, rfl⟩ := value?_eq_some h
      have hload : weight (.num v u) + burden o (.num v u) = load o (.num 0 1) := rfl
      rw [numbersOf_cons_of_some h, othersOf_cons_of_some h, length_cons, Nat.succ_mul, hload]
      omega
    | none =>
      rw [numbersOf_cons_of_none h, othersOf_cons_of_none h, loads]
      omega

theorem foldl_mix (o : Operator) (v : Int64) (vs : List Int64) : vs.foldl o.mix v = o.mix v (o.total vs) := by
  induction vs generalizing v with
  | nil => rw [foldl_nil, total_nil, o.mix_comm, o.unit_mix]
  | cons u vs ih => rw [foldl_cons, ih, total_cons, o.mix_assoc]

theorem foldl_unit (o : Operator) (vs : List Int64) : vs.foldl o.mix o.unit = o.total vs := by
  rw [foldl_mix, o.unit_mix]

theorem compute_regroup (ho : o.isAssociative) {n : Nat} (hn : 2 ≤ n) (vs : List Int64) :
    compute o n vs = if 2 ≤ vs.length then some (o.total vs) else none := by
  match vs with
  | [] => rfl
  | [v] =>
    rw [compute, if_neg (by simp; omega), if_neg (by simp)]
  | v :: u :: vs =>
    rw [compute, if_pos (by simp), ← foldl_unit]
    cases o <;> first | rfl | cases ho

theorem foldConstants_of_none (h : compute o as.length (numbersOf as) = none) :
    foldConstants o w as = operation o as := by
  rw [numbersOf] at h
  simp only [foldConstants, h]

theorem foldConstants_of_nil (h : compute o as.length (numbersOf as) = some v) (hothers : othersOf as = []) :
    foldConstants o w as = .ok (number v w) := by
  rw [numbersOf] at h
  rw [othersOf] at hothers
  simp only [foldConstants, h, hothers]

theorem foldConstants_of_cons {x : Expr} {rest : List Expr}
    (h : compute o as.length (numbersOf as) = some v) (hothers : othersOf as = x :: rest) :
    foldConstants o w as = operation o (x :: rest ++ [number v w]) := by
  rw [numbersOf] at h
  rw [othersOf] at hothers
  simp only [foldConstants, h, hothers]

theorem foldConstants_regroup (h : HasWidth Γ (.op o as) w) (ho : o.isAssociative) :
    ∃ r, foldConstants o w as = .ok r ∧ HasWidth Γ r w ∧ Lighter (.op o as) r ∧
      ∀ σ, value σ r = wrap w (o.mix (o.total ((othersOf as).map (value σ)))
        (if 2 ≤ (numbersOf as).length then settle w (o.total (numbersOf as)) else o.total (numbersOf as))) := by
  obtain ⟨hsum, hlen, hadm, has⟩ := h.regroup_inv ho
  have hwidth : Γ.width w := h.width_eq.2
  have hcompute := compute_regroup ho hlen (numbersOf as)
  by_cases hnum : 2 ≤ (numbersOf as).length
  · rw [if_pos hnum] at hcompute
    simp only [if_pos hnum]
    have hloads := loads_split o as
    have hn := hasWidth_number hwidth (o.total (numbersOf as))
    have hothers (x : Expr) (hx : x ∈ othersOf as) : HasWidth Γ x w := has x (mem_filter.mp hx).1
    cases hrest : othersOf as with
    | nil =>
      refine ⟨_, foldConstants_of_nil hcompute hrest, hn,
        lighter_of_lt (weight_number_lt (by rintro rfl; simp at hlen) _ _), fun σ => ?_⟩
      rw [value_number, map_nil, total_nil, o.unit_mix]
      exact (fits_settle (Γ.width_pos hwidth) _).symm
    | cons x rest =>
      rw [foldConstants_of_cons hcompute hrest]
      rw [hrest] at hothers hloads
      have hop : HasWidth Γ (.op o (x :: rest ++ [number (o.total (numbersOf as)) w])) w := by
        refine .regroup ho hsum (by simp) hadm fun y hy => ?_
        rcases mem_append.mp hy with hy | hy
        · exact hothers y hy
        · rw [mem_singleton.mp hy]
          exact hn
      obtain ⟨r, hr, htyped, -, hweight, hvalue⟩ := operation_regroup hop ho
      refine ⟨r, hr, htyped, lighter_of_lt (Nat.lt_of_le_of_lt hweight ?_), fun σ => ?_⟩
      · have hload : load o (number (o.total (numbersOf as)) w) = load o (.num 0 1) := by
          rw [number_eq]
          rfl
        have hpos : 0 < load o (.num 0 1) := Nat.lt_of_lt_of_le (weight_pos _) (weight_le_load _ _)
        have hmul : 2 * load o (.num 0 1) ≤ (numbersOf as).length * load o (.num 0 1) := Nat.mul_le_mul_right _ hnum
        rw [weight, weight, hloads, loads_append, loads_eq_sum o [_], map_singleton, sum_singleton, hload]
        omega
      · rw [hvalue σ, value_regroup σ hop ho, map_append, total_append, map_singleton,
          total_cons, total_nil, o.mix_comm (value σ (number _ _)), o.unit_mix, value_number]
  · rw [if_neg hnum] at hcompute
    simp only [if_neg hnum]
    obtain ⟨r, hr, htyped, hneg, hweight, hvalue⟩ := operation_regroup h ho
    refine ⟨r, (foldConstants_of_none hcompute).trans hr, htyped, lighter_of_le ?_ hweight, fun σ => ?_⟩
    · cases o <;> first | rfl | cases ho
    · rw [hvalue σ, value_regroup σ h ho, total_split]

/-! ### Operations on two operands -/

theorem toInt_eq_of_sign (a : Int64) :
    (a < 0 ∧ a.toInt = a.toUInt64.toNat - 18446744073709551616 ∧ 9223372036854775808 ≤ a.toUInt64.toNat) ∨
      (¬a < 0 ∧ a.toInt = a.toUInt64.toNat ∧ a.toUInt64.toNat < 9223372036854775808) := by
  have hint : a.toInt = _ := BitVec.toInt_eq_toNat_cond a.toBitVec
  have hlt : a.toUInt64.toNat < 18446744073709551616 := a.toUInt64.toNat_lt
  have hnat : a.toBitVec.toNat = a.toUInt64.toNat := rfl
  rw [hnat] at hint
  rw [Int64.lt_iff_toInt_lt]
  change (a.toInt < 0 ∧ _) ∨ (¬a.toInt < 0 ∧ _)
  split at hint <;> omega

theorem unsignedOrder_eq (le : Int64 → Int64 → Bool) (p : Int → Int → Prop) [DecidableRel p]
    (hle : ∀ a b, le a b = decide (p a.toInt b.toInt)) (hp : ∀ m n k, p (m - k) (n - k) ↔ p m n)
    (hlt : ∀ m n, m < n → p m n ∧ ¬p n m) (a b : Int64) :
    unsignedOrder le a b = decide (p a.toUInt64.toNat b.toUInt64.toNat) := by
  have hge (x : Int64) : x ≥ 0 ↔ ¬x < 0 := Int64.not_lt.symm
  unfold unsignedOrder
  rcases toInt_eq_of_sign a with ⟨ha, ha', ha''⟩ | ⟨ha, ha', ha''⟩ <;>
    rcases toInt_eq_of_sign b with ⟨hb, hb', hb''⟩ | ⟨hb, hb', hb''⟩
  · simp [hge, ha, hb, hle, ha', hb', hp]
  · simp [hge, ha, hb, (hlt b.toUInt64.toNat a.toUInt64.toNat (by omega)).2]
  · simp [hge, ha, hb, (hlt a.toUInt64.toNat b.toUInt64.toNat (by omega)).1]
  · simp [hge, ha, hb, hle, ha', hb']

theorem unsignedOrder_lt (a b : Int64) :
    unsignedOrder (fun a b => decide (a < b)) a b = decide (a.toUInt64 < b.toUInt64) := by
  rw [unsignedOrder_eq _ (fun m n => m < n) (fun a b => decide_eq_decide.mpr Int64.lt_iff_toInt_lt)
    (fun m n k => by omega) (fun m n h => ⟨h, by omega⟩)]
  exact decide_eq_decide.mpr (Int.ofNat_lt.trans UInt64.lt_iff_toNat_lt.symm)

theorem unsignedOrder_le (a b : Int64) :
    unsignedOrder (fun a b => decide (a ≤ b)) a b = decide (a.toUInt64 ≤ b.toUInt64) := by
  rw [unsignedOrder_eq _ (fun m n => m ≤ n) (fun a b => decide_eq_decide.mpr Int64.le_iff_toInt_le)
    (fun m n k => by omega) (fun m n h => ⟨by omega, by omega⟩)]
  exact decide_eq_decide.mpr (Int.ofNat_le.trans UInt64.le_iff_toNat_le.symm)

theorem computeMany_two (ho : o.isBinary) (a b : Int64) : computeMany o a b [a, b] = o.meaning a b := by
  cases o with
  | xor | equal | less | lessOrEqual | shl | shr | sar => rfl
  | unsignedLess => exact congrArg (fun t => some (truthWord t)) (unsignedOrder_lt a b)
  | unsignedLessOrEqual => exact congrArg (fun t => some (truthWord t)) (unsignedOrder_le a b)
  | mul => exact congrArg (fun c => some (c * b)) (Int64.one_mul a)
  | div | mod => simp only [computeMany, meaning, beq_iff_eq]
  | _ => cases ho

theorem HasWidth.binary_inv (h : HasWidth Γ (.op o as) w) (ho : o.isBinary) :
    ∃ a b wa wb, as = [a, b] ∧ HasWidth Γ a wa ∧ HasWidth Γ b wb ∧ Admissible w ∧
      (1 < w ∨ o = .xor ∧ wa = w ∧ wb = w ∨ o.isComparison ∧ w = 1 ∧ wb = wa) := by
  cases h with
  | xor hadm ha hb => exact ⟨_, _, _, _, rfl, ha, hb, hadm, .inr (.inl ⟨rfl, rfl, rfl⟩)⟩
  | compare ho ha hb => exact ⟨_, _, _, _, rfl, ha, hb, .inl rfl, .inr (.inr ⟨ho, rfl, rfl⟩)⟩
  | arith _ _ hone hadm _ ha hb => exact ⟨_, _, _, _, rfl, ha, hb, hadm, .inl hone⟩
  | regroup ho' => cases o <;> simp_all [isBinary, isAssociative]
  | functional _ ho' => cases o <;> simp_all [isBinary, isFunctional]
  | unknown _ ho' => cases o <;> simp_all [isBinary, isOpaque]
  | not | neg | cast => cases ho

theorem value_binary (h : HasWidth Γ (.op o [a, b]) w) (ho : o.isBinary) : value σ (.op o [a, b]) =
      wrap w ((o.meaning (value σ a) (value σ b)).getD (σ.other o [a.widthOf, b.widthOf] [value σ a, value σ b])) := by
  rw [value, h.widthOf_eq]
  cases o <;> first | rfl | cases ho

theorem truthWord_fits (t : Bool) : Fits 1 (truthWord t) := by
  rw [fits_one_iff]
  cases t
  · exact .inl rfl
  · exact .inr rfl

theorem meaning_of_isComparison (ho : o.isComparison) (a b : Int64) : ∃ t, o.meaning a b = some (truthWord t) := by
  cases o <;> first | exact ⟨_, rfl⟩ | cases ho

theorem settle_meaning (h : HasWidth Γ (.op o [a, b]) w) (ho : o.isBinary)
    (hv : o.meaning (value σ a) (value σ b) = some v) : settle w v = wrap w v := by
  have hpos := h.width_pos
  obtain ⟨a', b', wa, wb, hab, ha, hb, -, hw⟩ := h.binary_inv ho
  obtain ⟨rfl, rfl⟩ : a = a' ∧ b = b' := by simpa using hab
  have hfits : 1 < w ∨ Fits w v := by
    rcases hw with hone | ⟨rfl, rfl, rfl⟩ | ⟨hcomp, rfl, -⟩
    · exact .inl hone
    · cases hv
      refine .inr ?_
      rw [Fits, wrap_xor, fits_value σ ha, fits_value σ hb]
    · obtain ⟨t, ht⟩ := meaning_of_isComparison hcomp (value σ a) (value σ b)
      rw [ht] at hv
      cases hv
      exact .inr (truthWord_fits t)
  rcases hfits with hone | hfits
  · exact settle_eq_wrap hone v
  · rw [settle_of_fits hpos hfits, hfits]

theorem operation_binary (h : HasWidth Γ (.op o as) w) (ho : o.isBinary) : operation o as = .ok (.op o as) := by
  obtain ⟨_, _, _, _, -, -, -, hadm, -⟩ := h.binary_inv ho
  rw [← h.apply_eq hadm]
  cases o <;> first | rfl | cases ho

theorem foldConstants_binary (h : HasWidth Γ (.op o [a, b]) w) (ho : o.isBinary) :
    ∃ r, foldConstants o w [a, b] = .ok r ∧ Improves Γ w (.op o [a, b]) r := by
  have hself : operation o [a, b] = .ok (.op o [a, b]) := operation_binary h ho
  cases hcompute : compute o 2 (numbersOf [a, b]) with
  | none =>
    exact ⟨.op o [a, b], (foldConstants_of_none hcompute).trans hself, h, .refl _, fun σ => rfl⟩
  | some v =>
    -- only two numbers are computed
    obtain ⟨va, vb, ha, hb, hv⟩ :
        ∃ va vb, a.value? = some va ∧ b.value? = some vb ∧ computeMany o va vb [va, vb] = some v := by
      cases ha : a.value? <;> cases hb : b.value? <;> simp [numbersOf, ha, hb, compute] at hcompute
      exact ⟨_, _, rfl, rfl, hcompute⟩
    refine ⟨number v w, foldConstants_of_nil hcompute (by simp [othersOf, isNumber, ha, hb]),
      improves_number h (by simp) fun σ => ?_⟩
    have hmeaning : o.meaning (value σ a) (value σ b) = some v := by
      rw [value_of_value? σ ha, value_of_value? σ hb, ← computeMany_two ho, hv]
    rw [value_binary σ h ho, hmeaning, settle_meaning σ h ho hmeaning]
    rfl

theorem eq_of_num_equals (h : (Expr.num v w).equals a) : a = .num v w := by
  cases a with
  | num v' w' =>
    simp only [equals, Bool.and_eq_true, beq_iff_eq] at h
    rw [h.1, h.2]
  | _ => cases h

theorem answers_again_not (ha : HasWidth Γ a w) (hadm : Admissible w) (hweight : a.weight + 1 < e.weight)
    (hvalue : ∀ σ, ~~~value σ a = value σ e) : Answers (Reduction.Sound Γ w e) (do return some (.again (← not a))) := by
  obtain ⟨r, hr, htyped, hle, hvalue'⟩ := operation_not ha hadm
  rw [not, hr]
  exact .some ⟨.again htyped (Nat.lt_of_le_of_lt hle hweight), fun σ => (hvalue' σ).trans (hvalue σ)⟩

theorem weight_binary (ho : o ≠ .plus) (a b : Expr) : (Expr.op o [a, b]).weight = 1 + a.weight + b.weight := by
  rw [weight, loads, loads, loads, burden_of_ne ho, burden_of_ne ho]
  omega

theorem xorRule_spec (hadm : Admissible w) (ha : HasWidth Γ a w) (hb : HasWidth Γ b w) :
    Answers (Reduction.Sound Γ w (.op .xor [a, b])) (xorRule w a b) := by
  have h : HasWidth Γ (.op .xor [a, b]) w := .xor hadm ha hb
  have hweight : (op .xor [a, b]).weight = 1 + a.weight + b.weight := weight_binary (by decide) a b
  have hposa := weight_pos a
  have hposb := weight_pos b
  have hvalue (σ : Machine) : value σ (.op .xor [a, b]) = value σ a ^^^ value σ b := by
    rw [value_binary σ h rfl]
    change wrap w (value σ a ^^^ value σ b) = _
    rw [wrap_xor, fits_value σ ha, fits_value σ hb]
  unfold xorRule
  split
  · next heq =>
    obtain rfl := ha.eq_of_equals hb heq
    exact .some (sound_zero h (by simp) fun σ => by rw [hvalue σ, Int64.xor_self])
  split
  · next hz =>
    refine .some ⟨.done hb (lighter_of_lt (by omega)), fun σ => ?_⟩
    rw [Reduction.result, hvalue σ, value_of_isZero σ hz, Int64.zero_xor]
  split
  · next hz =>
    refine .some ⟨.done ha (lighter_of_lt (by omega)), fun σ => ?_⟩
    rw [Reduction.result, hvalue σ, value_of_isZero σ hz, Int64.xor_zero]
  split
  · next hones =>
    refine answers_again_not hb hadm (by omega) fun σ => ?_
    rw [hvalue σ, value_of_isAllOnes σ hones, Int64.neg_one_xor]
  split
  · next hones =>
    refine answers_again_not ha hadm (by omega) fun σ => ?_
    rw [hvalue σ, value_of_isAllOnes σ hones, Int64.xor_neg_one]
  · exact .none

theorem exists_truthWord (ha : HasWidth Γ a 1) : ∃ t, value σ a = truthWord t := by
  rcases fits_one_iff.mp (fits_value σ ha) with h | h
  · exact ⟨false, h⟩
  · exact ⟨true, h⟩

theorem value_compare (ho : o.isComparison) (ha : HasWidth Γ a w) (hb : HasWidth Γ b w) {t : Bool}
    (ht : o.meaning (value σ a) (value σ b) = some (truthWord t)) : value σ (.op o [a, b]) = truthWord t := by
  have hbinary : o.isBinary := isBinary_of_isComparison ho
  rw [value_binary σ (.compare ho ha hb) hbinary, ht]
  exact truthWord_fits t

theorem equalRule_spec (ha : HasWidth Γ a w) (hb : HasWidth Γ b w) :
    Answers (Reduction.Sound Γ 1 (.op .equal [a, b])) (equalRule a b) := by
  have hweight : (op .equal [a, b]).weight = 1 + a.weight + b.weight := weight_binary (by decide) a b
  have hposa := weight_pos a
  have hposb := weight_pos b
  have hvalue (σ : Machine) : value σ (.op .equal [a, b]) = truthWord (value σ a == value σ b) :=
    value_compare σ rfl ha hb rfl
  -- a truth value on one side makes the other side one, too
  have hone {v : Int64} {x : Expr} (hx : HasWidth Γ x w) (h : (num v 1).equals x) :
      w = 1 ∧ ∀ σ, value σ x = v := by
    obtain rfl := eq_of_num_equals h
    cases hx
    exact ⟨rfl, fun σ => by rw [value]⟩
  unfold equalRule
  split
  · next heq =>
    obtain rfl := ha.eq_of_equals hb heq
    refine .some ⟨.done (.num Γ.width_one (fits_one_iff.mpr (.inr rfl))) (lighter_of_lt ?_), fun σ => ?_⟩
    · change 1 < _
      omega
    · rw [Reduction.result, hvalue σ, BEq.rfl]
      rfl
  split
  · next heq =>
    obtain ⟨rfl, hv⟩ := hone ha heq
    refine .some ⟨.done hb (lighter_of_lt (by omega)), fun σ => ?_⟩
    obtain ⟨t, ht⟩ := exists_truthWord σ hb
    rw [Reduction.result, hvalue σ, hv σ, ht]
    cases t <;> rfl
  split
  · next heq =>
    obtain ⟨rfl, hv⟩ := hone hb heq
    refine .some ⟨.done ha (lighter_of_lt (by omega)), fun σ => ?_⟩
    obtain ⟨t, ht⟩ := exists_truthWord σ ha
    rw [Reduction.result, hvalue σ, hv σ, ht]
    cases t <;> rfl
  split
  · next heq =>
    obtain ⟨rfl, hv⟩ := hone ha heq
    refine answers_again_not hb (.inl rfl) (by omega) fun σ => ?_
    obtain ⟨t, ht⟩ := exists_truthWord σ hb
    rw [hvalue σ, hv σ, ht]
    cases t <;> rfl
  split
  · next heq =>
    obtain ⟨rfl, hv⟩ := hone hb heq
    refine answers_again_not ha (.inl rfl) (by omega) fun σ => ?_
    obtain ⟨t, ht⟩ := exists_truthWord σ ha
    rw [hvalue σ, hv σ, ht]
    cases t <;> rfl
  · exact .none

theorem mulRule_spec (h : HasWidth Γ (.op .mul [a, b]) w) : Answers (Reduction.Sound Γ w (.op .mul [a, b]))
      (scan (mulRule w) 0 [a, b]) := by
  refine scan_spec fun pre x later hsplit => ?_
  unfold mulRule
  split
  · next hz =>
    refine .some (sound_zero h (by simp) fun σ => ?_)
    have hx : x ∈ [a, b] := by simp [hsplit]
    have hproduct : value σ a * value σ b = 0 := by
      rcases mem_pair.mp hx with rfl | rfl
      · rw [value_of_isZero σ hz, Int64.zero_mul]
      · rw [value_of_isZero σ hz, Int64.mul_zero]
    rw [value_binary σ h rfl]
    change wrap w (value σ a * value σ b) = 0
    rw [hproduct, wrap_zero]
  · exact .none

/-! ### Comparisons that are put together -/

theorem HasWidth.compare_inv (h : HasWidth Γ (.op o as) w) (ho : o.isComparison) :
    ∃ a b u, as = [a, b] ∧ w = 1 ∧ HasWidth Γ a u ∧ HasWidth Γ b u := by
  have hbinary : o.isBinary := isBinary_of_isComparison ho
  obtain ⟨a, b, wa, wb, rfl, ha, hb, -, hw⟩ := h.binary_inv hbinary
  have hone : w = 1 := by
    have hwidth := h.width_eq.1
    cases o <;> first | exact (Except.ok.inj hwidth).symm | cases ho
  rcases hw with hw | ⟨rfl, -⟩ | ⟨-, -, rfl⟩
  · omega
  · cases ho
  · exact ⟨a, b, wb, rfl, hone, ha, hb⟩

theorem mergeComparisons_of_ne (ho : o ≠ .or) : mergeComparisons o as = .ok none := by
  cases o with
  | or => exact absurd rfl ho
  | _ => rfl

theorem truthWord_or (s t : Bool) : truthWord s ||| truthWord t = truthWord (s || t) := by
  cases s <;> cases t <;> rfl

theorem merged_spec {p q c : Operator} {a' b' : Expr} (h : HasWidth Γ (.op .or [.op p [a, b], .op q [a', b']]) w)
    (hequals : (a.equals a' && b.equals b')) (hp : p.isComparison) (hq : q.isComparison) (hc : c.isComparison)
    (hmeaning : ∀ x y, ∃ s t, p.meaning x y = some (truthWord s) ∧ q.meaning x y = some (truthWord t) ∧
      c.meaning x y = some (truthWord (s || t))) :
    ∃ r, operation c [a, b] = .ok r ∧ Improves Γ w (.op .or [.op p [a, b], .op q [a', b']]) r := by
  obtain ⟨-, -, -, has⟩ := h.regroup_inv rfl
  obtain ⟨x, y, u, hxy, rfl, ha, hb⟩ := (has (.op p [a, b]) (by simp)).compare_inv hp
  obtain ⟨x', y', u', hxy', -, ha', hb'⟩ := (has (.op q [a', b']) (by simp)).compare_inv hq
  obtain ⟨rfl, rfl⟩ : a = x ∧ b = y := by simpa using hxy
  obtain ⟨rfl, rfl⟩ : a' = x' ∧ b' = y' := by simpa using hxy'
  rw [Bool.and_eq_true] at hequals
  obtain rfl := ha.eq_of_equals ha' hequals.1
  obtain rfl := hb.eq_of_equals hb' hequals.2
  have hr : HasWidth Γ (.op c [a, b]) 1 := .compare hc ha hb
  have hbinary : c.isBinary := isBinary_of_isComparison hc
  refine ⟨_, operation_binary hr hbinary, hr, lighter_of_lt ?_, fun σ => ?_⟩
  · have hne {o : Operator} (ho : o.isComparison) : o ≠ .plus := by
      rintro rfl
      cases ho
    rw [weight_binary (hne hc), weight_binary (o := .or) (by decide), weight_binary (hne hp), weight_binary (hne hq)]
    omega
  · obtain ⟨s, t, hs, ht, hst⟩ := hmeaning (value σ a) (value σ b)
    rw [value_compare σ hc ha hb hst, value_regroup σ h rfl]
    change _ = wrap 1 (value σ (.op p [a, b]) ||| (value σ (.op q [a, b]) ||| 0))
    rw [value_compare σ hp ha hb hs, value_compare σ hq ha hb ht, Int64.or_zero, truthWord_or]
    exact (truthWord_fits _).symm

theorem le_eq_lt_or_eq (x y : Int64) : decide (x ≤ y) = (decide (x < y) || x == y) := by
  rw [Bool.eq_iff_iff]
  simp [Int64.le_iff_lt_or_eq]

theorem unsigned_le_eq_lt_or_eq (x y : Int64) :
    decide (x.toUInt64 ≤ y.toUInt64) = (decide (x.toUInt64 < y.toUInt64) || x == y) := by
  have hinj : x.toUInt64 = y.toUInt64 ↔ x = y :=
    ⟨fun h => Int64.toBitVec.inj (congrArg UInt64.toBitVec h), congrArg Int64.toUInt64⟩
  rw [Bool.eq_iff_iff]
  simp [UInt64.le_iff_lt_or_eq, hinj]

theorem mergeComparisons_or_spec (h : HasWidth Γ (.op .or as) w) :
    ∃ res, mergeComparisons .or as = .ok res ∧ ∀ r, res = some r → Improves Γ w (.op .or as) r := by
  have hnone : ∃ res, (.ok none : Faulty (Option Expr)) = .ok res ∧ ∀ r, res = some r →
      Improves Γ w (.op .or as) r :=
    ⟨none, rfl, nofun⟩
  have hsome {c : Operator} {a b : Expr} (h : ∃ r, operation c [a, b] = .ok r ∧ Improves Γ w (.op .or as) r) :
      ∃ res, some <$> operation c [a, b] = .ok res ∧ ∀ r, res = some r → Improves Γ w (.op .or as) r := by
    obtain ⟨r, hr, hspec⟩ := h
    rw [hr]
    exact ⟨some r, rfl, fun _ heq => Option.some.inj heq ▸ hspec⟩
  unfold mergeComparisons
  split
  case h_2 => exact hnone
  split
  case isFalse => exact hnone
  next p a b q a' b' hequals =>
  split
  · next hpq =>
    simp only [Bool.or_eq_true, Bool.and_eq_true, beq_iff_eq] at hpq
    refine hsome ?_
    rcases hpq with ⟨rfl, rfl⟩ | ⟨rfl, rfl⟩ <;>
      refine merged_spec h hequals rfl rfl rfl fun x y => ⟨_, _, rfl, rfl, ?_⟩
    · rw [← unsigned_le_eq_lt_or_eq]
      rfl
    · rw [Bool.or_comm, ← unsigned_le_eq_lt_or_eq]
      rfl
  split
  · next hpq =>
    simp only [Bool.or_eq_true, Bool.and_eq_true, beq_iff_eq] at hpq
    refine hsome ?_
    rcases hpq with ⟨rfl, rfl⟩ | ⟨rfl, rfl⟩ <;>
      refine merged_spec h hequals rfl rfl rfl fun x y => ⟨_, _, rfl, rfl, ?_⟩
    · rw [← le_eq_lt_or_eq]
      rfl
    · rw [Bool.or_comm, ← le_eq_lt_or_eq]
      rfl
  · exact hnone

/-! ### Operations on one operand -/

theorem not_total_not {d : Operator} (h : (o, d) = (.and, .or) ∨ (o, d) = (.or, .and)) (vs : List Int64) :
    ~~~o.total (vs.map (~~~·)) = d.total vs := by
  induction vs with
  | nil => rcases h with h | h <;> cases h <;> rfl
  | cons v vs ih =>
    rw [map_cons, total_cons, total_cons, ← ih]
    rcases h with h | h
    · cases h
      change ~~~(~~~v &&& _) = v ||| ~~~_
      rw [Word.not_and, Int64.not_not]
    · cases h
      change ~~~(~~~v ||| _) = v &&& ~~~_
      rw [Word.not_or, Int64.not_not]

theorem eq_map_of_mapM_notOperand? {bs : List Expr} (has : ∀ a ∈ as, HasWidth Γ a w)
    (h : as.mapM notOperand? = some bs) : as = bs.map (fun b => .op .not [b]) ∧ ∀ b ∈ bs, HasWidth Γ b w := by
  induction as generalizing bs with
  | nil =>
    cases h
    exact ⟨rfl, by simp⟩
  | cons a as ih =>
    obtain ⟨ha, has⟩ := forall_mem_cons.mp has
    rw [mapM_cons] at h
    obtain ⟨b, hb, h⟩ := Option.bind_eq_some_iff.mp h
    obtain ⟨bs', hbs', h⟩ := Option.bind_eq_some_iff.mp h
    cases h
    obtain ⟨rfl, htyped⟩ := ih has hbs'
    unfold notOperand? at hb
    split at hb
    · obtain ⟨x, hx, htyped'⟩ := ha.not_inv
      cases hx
      cases hb
      exact ⟨rfl, forall_mem_cons.mpr ⟨htyped', htyped⟩⟩
    · cases hb

theorem loads_congr {d : Operator} (ho : o ≠ .plus) (hd : d ≠ .plus) (bs : List Expr) : loads o bs = loads d bs := by
  rw [loads_eq_sum, loads_eq_sum, funext (load_of_ne ho), funext (load_of_ne hd)]

theorem loads_map_not (ho : o ≠ .plus) (bs : List Expr) :
    loads o (bs.map (fun b => .op .not [b])) = loads o bs + bs.length := by
  induction bs with
  | nil => rfl
  | cons b bs ih =>
    rw [map_cons, loads, ih, loads, weight_unary (by decide), burden_of_ne ho, burden_of_ne ho, length_cons]
    omega

theorem notRule_spec (ha : HasWidth Γ a w) (hadm : Admissible w) :
    Answers (Reduction.Sound Γ w (.op .not [a])) (notRule a) := by
  unfold notRule
  split
  · next o as =>
    split
    · next ho =>
      split
      · next bs hbs =>
        rw [Bool.or_eq_true, beq_iff_eq, beq_iff_eq] at ho
        have hassoc : o.isAssociative := by rcases ho with rfl | rfl <;> rfl
        have hplus : o ≠ .plus := by rcases ho with rfl | rfl <;> decide
        obtain ⟨-, hlen, -, has⟩ := ha.regroup_inv hassoc
        obtain ⟨rfl, htyped⟩ := eq_map_of_mapM_notOperand? has hbs
        rw [length_map] at hlen
        -- the operator that takes the place of `o`
        obtain ⟨d, hd, hdual⟩ : ∃ d : Operator, (if o == .and then .or else .and) = d ∧
            ((o, d) = (.and, .or) ∨ (o, d) = (.or, .and)) := by
          rcases ho with rfl | rfl
          · exact ⟨_, rfl, .inl rfl⟩
          · exact ⟨_, rfl, .inr rfl⟩
        have hassoc' : d.isAssociative := by rcases hdual with h | h <;> cases h <;> rfl
        have hplus' : d ≠ .plus := by rcases hdual with h | h <;> cases h <;> decide
        have hr : HasWidth Γ (.op d bs) w := .regroup hassoc' (fun h => absurd h hplus') hlen hadm htyped
        obtain ⟨r, hr', htyped', -, hweight, hvalue⟩ := operation_regroup hr hassoc'
        rw [hd, hr']
        refine .some ⟨.done htyped' (lighter_of_lt (Nat.lt_of_le_of_lt hweight ?_)), fun σ => ?_⟩
        · rw [weight_unary (by decide), weight, weight, loads_map_not hplus, loads_congr hplus hplus']
          omega
        · have hvalues : (bs.map (fun b => .op .not [b])).map (value σ) = (bs.map (value σ)).map (~~~·) := by
            rw [map_map, map_map]
            exact map_congr_left fun b hb => value_not σ (htyped b hb) hadm
          rw [Reduction.result, hvalue σ, value_regroup σ hr hassoc', value_not σ ha hadm, value_regroup σ ha hassoc,
            hvalues, ← wrap_not ha.width_pos, not_total_not hdual]
      · exact .none
    · exact .none
  · exact .none

theorem foldConstants_not (ha : HasWidth Γ a w) (hadm : Admissible w) :
    ∃ r, foldConstants .not w [a] = .ok r ∧ Improves Γ w (.op .not [a]) r := by
  have hpos := ha.width_pos
  cases hv : a.value? with
  | none =>
    obtain ⟨r, hr, htyped, hweight, hvalue⟩ := operation_not ha hadm
    refine ⟨r, ?_, htyped, lighter_of_le rfl ?_, fun σ => ?_⟩
    · rw [← hr]
      simp [foldConstants, hv, compute]
    · rwa [weight_unary (by decide)]
    · rw [hvalue σ, value_not σ ha hadm]
  | some v =>
    refine ⟨number (~~~v) w, ?_, improves_number (.not hadm ha) (by simp) fun σ => ?_⟩
    · simp [foldConstants, hv, compute, computeOne, isNumber]
    · have hfits := fits_value σ ha
      rw [value_of_value? σ hv] at hfits
      rw [value_not σ ha hadm, value_of_value? σ hv, settle_of_fits hpos]
      rw [Fits, wrap_not hpos, hfits]

theorem foldConstants_neg (ha : HasWidth Γ a w) (hsum : Γ.sum w) (hadm : Admissible w) :
    ∃ r, foldConstants .neg w [a] = .ok r ∧ Improves Γ w (.op .neg [a]) r := by
  have hpos := ha.width_pos
  cases hv : a.value? with
  | none =>
    obtain ⟨r, hr, htyped, hlighter, hvalue⟩ := operation_neg ha hsum hadm
    refine ⟨r, ?_, htyped, hlighter, fun σ => ?_⟩
    · rw [← hr]
      simp [foldConstants, hv, compute]
    · rw [hvalue σ, value_neg σ ha hsum hadm]
  | some v =>
    refine ⟨number (-v) w, ?_, improves_number (.neg hsum hadm ha) (by simp) fun σ => ?_⟩
    · simp [foldConstants, hv, compute, computeOne, isNumber]
    · have hfits := fits_value σ ha
      rw [value_of_value? σ hv] at hfits
      rw [value_neg σ ha hsum hadm, value_of_value? σ hv]
      by_cases hone : w = 1
      · subst hone
        rcases fits_one_iff.mp hfits with rfl | rfl <;> decide
      · exact (settle_eq_wrap (by omega) _).symm

/-! ### Changes of width, and operations without a meaning -/

theorem extensionRule_spec {f l : Int64} {wf wl u : Int} (ho : o = .signExtend ∨ o = .zeroFill)
    (h : HasWidth Γ (.op o [.num f wf, .num l wl, a]) u) (ha : HasWidth Γ a w) (hadm : Admissible u)
    (hu : max (wrap32 (low32 l + 1)) w = u) :
    ∃ r, extensionRule o [.num f wf, .num l wl, a] = .ok r ∧ Improves Γ u (.op o [.num f wf, .num l wl, a]) r := by
  cases hv : a.value? with
  | none =>
    refine ⟨_, ?_, h, .refl _, fun σ => rfl⟩
    rw [← h.apply_eq hadm]
    cases a with
    | num => cases hv
    | _ => rcases ho with rfl | rfl <;> rfl
  | some v =>
    obtain ⟨wa, rfl⟩ := value?_eq_some hv
    obtain rfl : wa = w := by
      cases ha
      rfl
    obtain ⟨v', hv'⟩ := extend_eq_number (o == .signExtend) (low32 f) (low32 l) v wa
    rw [hu] at hv'
    refine ⟨number v' u, congrArg Except.ok hv', improves_number h (by simp) fun σ => ?_⟩
    have hvalue : value σ (.op o [.num f wf, .num l wl, .num v wa]) =
        ((extend (o == .signExtend) (low32 f) (low32 l) v wa).value?).getD 0 := by
      simp only [value, values, map, widthOf, width]
      rcases ho with rfl | rfl <;> rfl
    rw [hvalue, hv', value?_number, Option.getD_some]

theorem compute_of_isOpaque (ho : o.isOpaque) (n : Nat) (vs : List Int64) : compute o n vs = none := by
  match vs with
  | [] => rfl
  | [v] =>
    rw [compute]
    cases o <;> cases ho <;> simp [computeOne]
  | v :: u :: vs =>
    rw [compute]
    cases o <;> first | rfl | cases ho

theorem foldConstants_of_isOpaque (ho : o.isOpaque) (h : HasWidth Γ (.op o as) w) (hadm : Admissible w) :
    foldConstants o w as = .ok (.op o as) := by
  rw [foldConstants_of_none (compute_of_isOpaque ho _ _), ← h.apply_eq hadm]
  cases o <;> first | rfl | cases ho

/-! ### Every operation -/

/-- The steps that do not keep the value: a disjunction of opposite operands is not taken for all
ones, and an even number of truth values that are *true* is added up to *true*. -/
def IsFlawed (o : Operator) (w : Int) (old as : List Expr) : Prop :=
  (o = .or ∧ w ≠ 1 ∧ identityRule .or w w old as = .ok (some (.done (eitherOpposite w)))) ∨
  (o = .plus ∧ w = 1 ∧ identityRule .plus w w old as = .ok none ∧
    Operator.plus.total (numbersOf as) ≠ 0 ∧ wrap 1 (Operator.plus.total (numbersOf as)) = 0)

theorem not_isFlawed (hor : o ≠ .or) (hplus : o ≠ .plus) : ¬IsFlawed o w old as := by
  rintro (⟨rfl, -⟩ | ⟨rfl, -⟩)
  · exact hor rfl
  · exact hplus rfl

theorem reduce_of_rules {P : Reduction → Prop} (hidentity : Answers P (identityRule o w w old as))
    (hmerge : ∃ res, mergeComparisons o as = .ok res ∧ ∀ r, res = some r → P (.done r))
    (hfold : identityRule o w w old as = .ok none → ∃ r, foldConstants o w as = .ok r ∧ P (.done r)) :
    ∃ red, reduce o w w old as = .ok red ∧ P red := by
  obtain ⟨res, hres, hP⟩ := hidentity
  unfold reduce
  rw [hres]
  cases res with
  | some red => exact ⟨red, rfl, hP red rfl⟩
  | none =>
    obtain ⟨res', hres', hP'⟩ := hmerge
    change ∃ red, (mergeComparisons o as >>= _) = .ok red ∧ _
    rw [hres']
    cases res' with
    | some r => exact ⟨_, rfl, hP' r rfl⟩
    | none =>
      obtain ⟨r, hr, hP''⟩ := hfold hres
      change ∃ red, (foldConstants o w as >>= _) = .ok red ∧ _
      rw [hr]
      exact ⟨_, rfl, hP''⟩

theorem reduce_of_fold {w' : Int} (hrule : identityRule o w w' old as = .ok none)
    (hmerge : mergeComparisons o as = .ok none) (hfold : foldConstants o w' as = .ok r) :
    reduce o w w' old as = .ok (.done r) := by
  simp only [reduce, hrule, hmerge, hfold, ok_bind, pure, Except.pure]

theorem some_done_of_ok {x : Faulty Expr} (h : x = .ok r) :
    (do return some (.done (← x)) : Faulty (Option Reduction)) = .ok (some (.done r)) := by
  rw [h]
  rfl

theorem reduce_of_some {red : Reduction} (h : identityRule o w w old as = .ok (some red)) :
    reduce o w w old as = .ok red := by
  unfold reduce
  rw [h]
  rfl

theorem fits_total_numbersOf (ho : o = .and ∨ o = .or) (hpos : 0 < w) (has : ∀ a ∈ as, HasWidth Γ a w) :
    Fits w (o.total (numbersOf as)) := by
  induction as with
  | nil =>
    rcases ho with rfl | rfl
    · exact wrap_neg_one hpos
    · exact wrap_zero w
  | cons a as ih =>
    obtain ⟨ha, hrest⟩ := forall_mem_cons.mp has
    cases hv : a.value? with
    | none =>
      rw [numbersOf_cons_of_none hv]
      exact ih hrest
    | some v =>
      obtain ⟨u, rfl⟩ := value?_eq_some hv
      cases ha with
      | num _ hfits =>
        rw [numbersOf_cons_of_some hv, total_cons]
        rcases ho with rfl | rfl
        · exact (wrap_and w _ _).trans (by rw [hfits, ih hrest]; rfl)
        · exact (wrap_or w _ _).trans (by rw [hfits, ih hrest]; rfl)

theorem identityRule_or (hold : (Expr.op .or old).width = .ok w) (h : HasWidth Γ (.op .or as) w) :
    Answers (fun red => red.Shrinks Γ w (.op .or as) ∧
        ((red = .done (number (-1) w) ∨ red = .done (eitherOpposite w)) ∧ (∀ σ, value σ (.op .or as) = -1) ∨
          (∃ r, red = .again r) ∧ red.Keeps (.op .or as))) (identityRule .or w w old as) :=
  scan_spec fun pre a later hsplit => by
    subst hsplit
    exact connectiveRule_spec (.inr rfl) hold h

section

variable (ho : o.isAssociative) (hold : (Expr.op o old).width = .ok w) (h : HasWidth Γ (.op o as) w)

include ho hold h

theorem identityRule_regroup :
    Answers (fun red => red.Shrinks Γ w (.op o as) ∧ (¬IsFlawed o w old as → red.Keeps (.op o as)))
      (identityRule o w w old as) := by
  have hpos := h.width_pos
  cases o with
  | and =>
    refine scan_spec fun pre a later hsplit => ?_
    subst hsplit
    obtain ⟨res, hres, hspec⟩ := connectiveRule_spec (.inl rfl) hold h
    refine ⟨res, hres, fun red hred => ⟨(hspec red hred).1, fun _ => ?_⟩⟩
    rcases (hspec red hred).2 with ⟨hdone, hvalue⟩ | ⟨-, hkeeps⟩
    · intro σ
      rw [hvalue σ, hdone.elim id id]
      exact (value_number σ 0 w).trans (settle_of_fits hpos (wrap_zero w))
    · exact hkeeps
  | plus =>
    refine scan_spec fun pre a later hsplit => ?_
    subst hsplit
    obtain ⟨res, hres, hspec⟩ := plusRule_spec hold h
    exact ⟨res, hres, fun red hred => ⟨(hspec red hred).1, fun _ => (hspec red hred).2⟩⟩
  | or =>
    obtain ⟨res, hres, hspec⟩ := identityRule_or hold h
    refine ⟨res, hres, fun red hred => ⟨(hspec red hred).1, fun hflawed => ?_⟩⟩
    subst hred
    rcases (hspec red rfl).2 with ⟨hdone, hvalue⟩ | ⟨-, hkeeps⟩
    · intro σ
      rw [hvalue σ]
      rcases hdone with rfl | rfl
      · exact (value_number σ (-1) w).trans (settle_of_fits hpos (wrap_neg_one hpos))
      · -- with one bit, every number but zero is *true*
        have hone : w = 1 := by_contra fun hne => hflawed (.inl ⟨rfl, hne, hres⟩)
        subst hone
        rw [Reduction.result, eitherOpposite, value_number]
        decide
    · exact hkeeps
  | _ => cases ho

theorem reduce_regroup : ∃ red, reduce o w w old as = .ok red ∧ red.Shrinks Γ w (.op o as) ∧
      (¬IsFlawed o w old as → red.Keeps (.op o as)) := by
  obtain ⟨-, -, -, has⟩ := h.regroup_inv ho
  have hpos := h.width_pos
  refine reduce_of_rules (identityRule_regroup ho hold h) ?_ fun hnone => ?_
  · by_cases hor : o = .or
    · subst hor
      obtain ⟨res, hres, hspec⟩ := mergeComparisons_or_spec h
      refine ⟨res, hres, fun r hr => ?_⟩
      obtain ⟨htyped, hlighter, hvalue⟩ := hspec r hr
      exact ⟨.done htyped hlighter, fun _ => hvalue⟩
    · exact ⟨none, mergeComparisons_of_ne hor, nofun⟩
  · obtain ⟨r, hr, htyped, hlighter, hvalue⟩ := foldConstants_regroup h ho
    refine ⟨r, hr, .done htyped hlighter, fun hflawed σ => ?_⟩
    have hsettle : settle w (o.total (numbersOf as)) = wrap w (o.total (numbersOf as)) := by
      by_cases hplus : o = .plus
      · subst hplus
        by_cases hone : w = 1
        · subst hone
          refine settle_one_eq_wrap ?_
          by_contra hcontra
          rw [not_or, not_not] at hcontra
          exact hflawed (.inr ⟨rfl, rfl, hnone, hcontra⟩)
        · exact settle_eq_wrap (by omega) _
      · have hfits := fits_total_numbersOf (o := o) (by cases o <;> simp_all [isAssociative]) hpos has
        rw [settle_of_fits hpos hfits, hfits]
    rw [Reduction.result, hvalue σ, value_regroup σ h ho, total_split σ o as]
    split
    · exact o.wrap_mix_congr rfl (by rw [hsettle, wrap_wrap])
    · rfl

end

theorem reduce_binary (ho : o.isBinary) (h : HasWidth Γ (.op o as) w) :
    ∃ red, reduce o w w old as = .ok red ∧ red.Sound Γ w (.op o as) := by
  obtain ⟨a, b, wa, wb, rfl, ha, hb, hadm, hw⟩ := h.binary_inv ho
  refine reduce_of_rules ?_ ⟨none, mergeComparisons_of_ne (by rintro rfl; cases ho), nofun⟩
    fun _ => ?_
  · cases o with
    | xor =>
      cases h with
      | xor hadm ha hb => exact xorRule_spec hadm ha hb
      | regroup ho | compare ho | arith _ ho | unknown _ ho => cases ho
    | equal =>
      obtain ⟨x, y, u, hxy, rfl, hx, hy⟩ := h.compare_inv rfl
      obtain ⟨rfl, rfl⟩ : a = x ∧ b = y := by simpa using hxy
      exact equalRule_spec hx hy
    | mul => exact mulRule_spec h
    | less | lessOrEqual | unsignedLess | unsignedLessOrEqual | shl | shr | sar | div | mod => exact .none
    | _ => cases ho
  · exact Improves.sound (foldConstants_binary h ho)

/-- **Every operation.** Where the operation on the evaluated operands has a width, it is reduced
without a fault to an expression of this width that is no heavier, and the value is kept unless the
step is flawed. -/
theorem reduce_spec (hold : (Expr.op o old).width = .ok w) (h : HasWidth Γ (.op o as) w) :
    ∃ red, reduce o w w old as = .ok red ∧ red.Shrinks Γ w (.op o as) ∧
      (¬IsFlawed o w old as → red.Keeps (.op o as)) := by
  have hsound {as : List Expr} (h : ∃ red, reduce o w w old as = .ok red ∧ red.Sound Γ w (.op o as)) :
      ∃ red, reduce o w w old as = .ok red ∧ red.Shrinks Γ w (.op o as) ∧
        (¬IsFlawed o w old as → red.Keeps (.op o as)) := by
    obtain ⟨red, hred, hshrinks, hkeeps⟩ := h
    exact ⟨red, hred, hshrinks, fun _ => hkeeps⟩
  have hbinary (ho : o.isBinary) := hsound (reduce_binary ho h)
  have hmerge (ho : o ≠ .or) (P : Expr → Prop) : ∃ res, mergeComparisons o as = .ok res ∧ ∀ r, res = some r → P r :=
    ⟨none, mergeComparisons_of_ne ho, nofun⟩
  have htyped := h
  cases h with
  | regroup ho => exact reduce_regroup ho hold htyped
  | xor => exact hbinary rfl
  | compare ho => exact hbinary (isBinary_of_isComparison ho)
  | arith _ ho => exact hbinary (isBinary_of_resizes ho)
  | @not a _ hadm ha =>
    refine hsound (reduce_of_rules (notRule_spec ha hadm) (hmerge (by decide) _) fun _ => ?_)
    exact Improves.sound (foldConstants_not ha hadm)
  | @neg a _ hsum hadm ha =>
    refine hsound (reduce_of_rules .none (hmerge (by decide) _) fun _ => ?_)
    exact Improves.sound (foldConstants_neg ha hsum hadm)
  | @functional _ f l a wf wl w' _ _ ho hu hadm _ ha =>
    have hextension (ho' : o = .signExtend ∨ o = .zeroFill) (hu' : max (wrap32 (low32 l + 1)) w' = w) :
        ∃ red, reduce o w w old [.num f wf, .num l wl, a] = .ok red ∧ red.Sound Γ w (.op o [.num f wf, .num l wl, a]) := by
      obtain ⟨r, hr, hsound⟩ := Improves.sound (extensionRule_spec ho' htyped ha hadm hu')
      refine ⟨.done r, reduce_of_some ?_, hsound⟩
      rcases ho' with rfl | rfl <;> exact some_done_of_ok hr
    cases o with
    | signExtend => exact hsound (hextension (.inl rfl) (Except.ok.inj hu))
    | zeroFill => exact hsound (hextension (.inr rfl) (Except.ok.inj hu))
    | floatResize =>
      refine ⟨.done _, reduce_of_some ?_, .done htyped (.refl _), fun _ _ => rfl⟩
      exact some_done_of_ok (htyped.apply_eq hadm)
    | _ => cases ho
  | @cast n a wn _ _ hn ha =>
    refine ⟨.done a, reduce_of_some ?_, .done ha (lighter_of_lt ?_), fun _ σ => ?_⟩
    · have hcast : castRule [a, .num n wn] = .ok a := by
        change (a.width >>= fun wa => if (wa == low32 n) then pure a else _) = _
        rw [ha.width_eq.1]
        change (if (w == low32 n) then _ else _) = _
        rw [if_pos (by rw [hn, BEq.rfl])]
        rfl
      exact some_done_of_ok hcast
    · have := weight_pos (.num n wn)
      rw [weight_binary (by decide)]
      omega
    · rw [Reduction.result, value, htyped.widthOf_eq]
      exact (fits_value σ ha).symm
  | unknown _ ho _ _ hadm =>
    refine reduce_of_rules ?_ (hmerge (by rintro rfl; cases ho) _) fun _ => ?_
    · rw [show identityRule o w w old as = .ok none by cases o <;> first | rfl | cases ho]
      exact .none
    · exact ⟨_, foldConstants_of_isOpaque ho htyped hadm, .done htyped (.refl _), fun _ _ => rfl⟩

end Expr

end FlowRecovery
