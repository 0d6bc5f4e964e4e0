import FlowRecovery.Proofs.Expr.Building

/-!
# The rules of evaluation keep meaning

`Expr.reduce` says what becomes of an operation whose operands were evaluated. Here each of its
rules is shown to keep the width and the value of the operation, with two exceptions that `IsFlawed`
describes.
-/

namespace FlowRecovery

open Word List Operator

namespace Expr

variable {Γ : Vocabulary} {o : Operator} {old as later : List Expr} {a b e : Expr} {w : Int}

def Reduction.result : Reduction → Expr
  | .done r | .again r => r

/-- An answer to what becomes of the expression `e` of `w` bits has the same width and is no
heavier. If it is to be evaluated again, it is lighter. -/
structure Reduction.Shrinks (Γ : Vocabulary) (w : Int) (e : Expr) (red : Reduction) : Prop where
  hasWidth : HasWidth Γ red.result w
  lighter : Lighter e red.result
  lt_of_again {r : Expr} (h : red = .again r) : r.weight < e.weight

/-- An answer to what becomes of the expression `e` has the same value. -/
def Reduction.Keeps (e : Expr) (red : Reduction) : Prop := ∀ σ, value σ red.result = value σ e

/-- An answer to what becomes of the expression `e` of `w` bits is right. -/
def Reduction.Sound (Γ : Vocabulary) (w : Int) (e : Expr) (red : Reduction) : Prop := red.Shrinks Γ w e ∧ red.Keeps e

theorem Reduction.Shrinks.again {r : Expr} (hr : HasWidth Γ r w) (h : r.weight < e.weight) :
    (Reduction.again r).Shrinks Γ w e :=
  ⟨hr, lighter_of_lt h, fun heq => by cases heq; exact h⟩

theorem Reduction.Shrinks.done {r : Expr} (hr : HasWidth Γ r w) (h : Lighter e r) : (Reduction.done r).Shrinks Γ w e :=
  ⟨hr, h, nofun⟩

def Answers (P : Reduction → Prop) (x : Except Fault (Option Reduction)) : Prop :=
  ∃ res, x = .ok res ∧ ∀ red, res = some red → P red

variable {P : Reduction → Prop}

theorem Answers.some {red : Reduction} (h : P red) : Answers P (.ok (some red)) :=
  ⟨_, rfl, fun _ heq => Option.some.inj heq ▸ h⟩

theorem Answers.none : Answers P (.ok none) := ⟨_, rfl, fun _ heq => nomatch heq⟩

/-! ### Taking operands away -/

theorem eraseIdx_middle (pre : List Expr) (a : Expr) (later : List Expr) :
    (pre ++ a :: later).eraseIdx pre.length = pre ++ later := by
  simp [eraseIdx_append]

theorem total_middle (o : Operator) (σ : Machine) (pre : List Expr) (a : Expr) (later : List Expr) :
    o.total ((pre ++ a :: later).map (value σ)) = o.mix (value σ a) (o.total ((pre ++ later).map (value σ))) :=
  o.total_perm (perm_middle.map (value σ))

/-- What an operation applied to one operand at least is written as. -/
def joined (o : Operator) : List Expr → Expr
  | [x] => x
  | xs => .op o xs

section

variable {i : Nat} (hold : operationWidth o old (widths old) = .ok w) (hlen : 2 ≤ as.length) (hi : i < as.length)

include hold hlen hi

theorem dropOperand_eq
    (hrest : 2 ≤ (as.eraseIdx i).length → operationWidth o (as.eraseIdx i) (widths (as.eraseIdx i)) = .ok w) :
    dropOperand o old as i =
      if 2 ≤ (as.eraseIdx i).length then operation o (as.eraseIdx i) else .ok (joined o (as.eraseIdx i)) := by
  match as, hlen with
  | [a, b], _ =>
    match i, hi with
    | 0, _ | 1, _ => rfl
  | a :: b :: c :: cs, _ =>
    have htwo : 2 ≤ ((a :: b :: c :: cs).eraseIdx i).length := by
      rw [length_eraseIdx_of_lt hi]
      simp
    simp only [dropOperand, hold, hrest htwo, ok_bind, if_pos htwo]
    simp

/-- What an operation without one of its operands is depends on what operations on two operands at
least are. -/
theorem dropOperand_of_operation {Q : Expr → Prop} (has : ∀ a ∈ as, Q a ∧ ∀ σ, Fits w (value σ a))
    (hmany : 2 ≤ (as.eraseIdx i).length → operationWidth o (as.eraseIdx i) (widths (as.eraseIdx i)) = .ok w ∧
      ∃ r, operation o (as.eraseIdx i) = .ok r ∧ Q r ∧ r.weight ≤ (Expr.op o (as.eraseIdx i)).weight ∧
        ∀ σ, value σ r = wrap w (o.total ((as.eraseIdx i).map (value σ)))) :
    ∃ r, dropOperand o old as i = .ok r ∧ Q r ∧ r.weight < (Expr.op o as).weight ∧
      ∀ σ, value σ r = wrap w (o.total ((as.eraseIdx i).map (value σ))) := by
  have hloads : loads o (as.eraseIdx i) < loads o as := by
    have := weight_pos as[i]
    rw [← loads_perm (getElem_cons_eraseIdx_perm hi), loads]
    omega
  rw [dropOperand_eq hold hlen hi fun htwo => (hmany htwo).1]
  split
  · next htwo =>
    obtain ⟨-, r, hr, hQ, hweight, hvalue⟩ := hmany htwo
    refine ⟨r, hr, hQ, Nat.lt_of_le_of_lt hweight ?_, hvalue⟩
    rw [weight, weight]
    omega
  · next hone =>
    rw [length_eraseIdx_of_lt hi] at hone
    obtain ⟨x, hx⟩ := length_eq_one_iff.mp (show (as.eraseIdx i).length = 1 by
      rw [length_eraseIdx_of_lt hi]
      omega)
    obtain ⟨hQ, hfits⟩ := has x (mem_of_mem_eraseIdx (hx ▸ mem_singleton_self x))
    rw [hx, loads] at hloads
    refine ⟨x, by rw [hx]; rfl, hQ, ?_, fun σ => ?_⟩
    · rw [weight]
      omega
    · rw [hx, map_singleton, total_singleton, hfits σ]

end

theorem dropOperand_spec (hold : (Expr.op o old).width = .ok w) (h : HasWidth Γ (.op o as) w)
    (ho : o.isAssociative) {i : Nat} (hi : i < as.length) :
    ∃ r, dropOperand o old as i = .ok r ∧ HasWidth Γ r w ∧ r.weight < (Expr.op o as).weight ∧
      ∀ σ, value σ r = wrap w (o.total ((as.eraseIdx i).map (value σ))) := by
  obtain ⟨hsum, hlen, hadm, has⟩ := h.regroup_inv ho
  refine dropOperand_of_operation hold hlen hi (fun a ha => ⟨has a ha, fun σ => fits_value σ (has a ha)⟩) fun htwo => ?_
  have hrest : HasWidth Γ (.op o (as.eraseIdx i)) w :=
    .regroup ho hsum htwo hadm fun x hx => has x (mem_of_mem_eraseIdx hx)
  obtain ⟨r, hr, htyped, -, hweight, hvalue⟩ := operation_regroup hrest ho
  refine ⟨hrest.width_eq.1, r, hr, htyped, hweight, fun σ => ?_⟩
  rw [hvalue, value_regroup σ hrest ho]

/-! ### Numbers -/

theorem hasWidth_number (hw : Γ.width w) (v : Int64) : HasWidth Γ (number v w) w := by
  rw [number_eq]
  exact .num hw (fits_settle (Γ.width_pos hw) v)

variable (σ : Machine)

theorem value_number (v : Int64) (w : Int) : value σ (number v w) = settle w v := by
  rw [number_eq, value]

theorem weight_number (v : Int64) (w : Int) : (number v w).weight = 1 := by
  rw [number_eq]
  rfl

theorem weight_number_lt (hpos : as ≠ []) (v : Int64) (w : Int) : (number v w).weight < (Expr.op o as).weight := by
  match as, hpos with
  | a :: as, _ =>
    have := weight_pos a
    rw [weight_number, weight, loads]
    omega

theorem sound_zero (h : HasWidth Γ (.op o as) w) (hne : as ≠ []) (hvalue : ∀ σ, value σ (.op o as) = 0) :
    (Reduction.done (number 0 w)).Sound Γ w (.op o as) := by
  have hwidth : Γ.width w := h.width_eq.2
  refine ⟨.done (hasWidth_number hwidth 0) (lighter_of_lt (weight_number_lt hne _ _)), fun σ => ?_⟩
  rw [Reduction.result, value_number, hvalue σ]
  exact settle_of_fits (Γ.width_pos hwidth) (wrap_zero w)

variable {v : Int64}

theorem value?_eq_some (h : a.value? = some v) : ∃ w, a = .num v w := by
  cases a with
  | num v' w =>
    cases h
    exact ⟨w, rfl⟩
  | _ => cases h

theorem exists_num_of_isNumber (ha : a.isNumber) : ∃ v w, a = .num v w := by
  obtain ⟨v, hv⟩ := Option.isSome_iff_exists.mp ha
  exact ⟨v, value?_eq_some hv⟩

theorem value_of_value? (h : a.value? = some v) : value σ a = v := by
  obtain ⟨w, rfl⟩ := value?_eq_some h
  rw [value]

theorem value_of_isZero (h : a.isZero) : value σ a = 0 :=
  value_of_value? σ (by simpa [isZero] using h)

theorem value_of_isAllOnes (h : a.isAllOnes) : value σ a = -1 :=
  value_of_value? σ (by simpa [isAllOnes] using h)

/-! ### Operands that decide -/

variable {vs : List Int64}

theorem total_of_mem (o : Operator) (h : v ∈ vs) : ∃ us, o.total vs = o.mix v (o.total us) := by
  obtain ⟨pre, later, rfl⟩ := append_of_mem h
  exact ⟨pre ++ later, o.total_perm perm_middle⟩

theorem mix_total_of_mem (ho : o = .and ∨ o = .or) (h : v ∈ vs) : o.mix v (o.total vs) = o.total vs := by
  obtain ⟨us, hus⟩ := total_of_mem o h
  rw [hus, ← mix_assoc]
  rcases ho with rfl | rfl
  · exact congrArg (Operator.and.mix · _) Int64.and_self
  · exact congrArg (Operator.or.mix · _) Int64.or_self

section

variable (ho : o = .and ∨ o = .or)

include ho

theorem total_of_absorbing (h : ~~~o.unit ∈ vs) : o.total vs = ~~~o.unit := by
  obtain ⟨us, hus⟩ := total_of_mem o h
  rw [hus]
  rcases ho with rfl | rfl
  · exact Int64.zero_and
  · exact Int64.neg_one_or

theorem mix_of_opposite (h : ~~~v ∈ vs) : o.mix v (o.total vs) = ~~~o.unit := by
  obtain ⟨us, hus⟩ := total_of_mem o h
  rw [hus, ← mix_assoc]
  rcases ho with rfl | rfl
  · change v &&& ~~~v &&& _ = 0
    rw [Int64.and_not_self, Int64.zero_and]
  · change v ||| ~~~v ||| _ = -1
    rw [Int64.or_not_self, Int64.neg_one_or]

theorem wrap_absorbing (hw : 0 < w) : wrap w (~~~o.unit) = ~~~o.unit := by
  rcases ho with rfl | rfl
  · exact wrap_zero w
  · exact wrap_neg_one hw

end

theorem negationIn_spec (ha : HasWidth Γ a w) (hadm : Admissible w) (hlater : ∀ x ∈ later, HasWidth Γ x w) :
    ∃ found, negationIn a later = .ok found ∧ (found → ∀ σ, ~~~value σ a ∈ later.map (value σ)) := by
  induction later with
  | nil => exact ⟨false, rfl, nofun⟩
  | cons x later ih =>
    obtain ⟨hx, hlater⟩ := forall_mem_cons.mp hlater
    obtain ⟨r, hr, htyped, -, hvalue⟩ := operation_not ha hadm
    obtain ⟨found, hfound, hmem⟩ := ih hlater
    have hstep : negationIn a (x :: later) = if x.equals r then .ok true else negationIn a later := by
      rw [negationIn, not, hr]
      rfl
    rw [hstep]
    split
    · next heq =>
      refine ⟨true, rfl, fun _ σ => ?_⟩
      rw [map_cons, hx.eq_of_equals htyped heq, hvalue]
      exact mem_cons_self
    · exact ⟨found, hfound, fun h σ => mem_cons_of_mem _ (hmem h σ)⟩

/-! ### Conjunctions and disjunctions -/

variable {rule : Nat → Expr → List Expr → Faulty (Option Reduction)}

theorem scan_spec (h : ∀ pre a later, as = pre ++ a :: later → Answers P (rule pre.length a later)) :
    Answers P (scan rule 0 as) := by
  have hfrom (later pre : List Expr) (hsplit : as = pre ++ later) : Answers P (scan rule pre.length later) := by
    induction later generalizing pre with
    | nil => exact .none
    | cons a later ih =>
      obtain ⟨res, hres, hP⟩ := h pre a later hsplit
      rw [scan, hres]
      cases res with
      | some red => exact .some (hP red rfl)
      | none =>
        have hrest := ih (pre ++ [a]) (by rw [hsplit, append_assoc, singleton_append])
        rwa [length_append, length_singleton] at hrest
  exact hfrom as [] rfl

theorem of_scan_eq_ok {i : Nat} {res : Option Reduction} (h : scan rule i as = .ok res) :
    match res with
    | none => ∀ pre a later, as = pre ++ a :: later → ∃ j, rule j a later = .ok none
    | some red => ∃ pre a later, as = pre ++ a :: later ∧ ∃ j, rule j a later = .ok (some red) := by
  induction as generalizing i with
  | nil =>
    cases h
    simp
  | cons a as ih =>
    obtain ⟨answer, hrule, h⟩ := of_bind_eq_ok h
    cases answer with
    | some red =>
      cases h
      exact ⟨[], a, as, rfl, i, hrule⟩
    | none =>
      cases res with
      | none =>
        rintro (_ | ⟨_, pre⟩) b later hsplit <;> cases hsplit
        · exact ⟨i, hrule⟩
        · exact ih h pre b later rfl
      | some red =>
        obtain ⟨pre, b, later, rfl, hb⟩ := ih h
        exact ⟨a :: pre, b, later, rfl, hb⟩

variable {pre rest : List Expr}

theorem dropOperand_middle (hold : (Expr.op o old).width = .ok w) (h : HasWidth Γ (.op o (pre ++ a :: later)) w)
    (ho : o.isAssociative) (hvalue : ∀ σ,
      o.mix (value σ a) (o.total ((pre ++ later).map (value σ))) = o.total ((pre ++ later).map (value σ))) :
    ∃ r, dropOperand o old (pre ++ a :: later) pre.length = .ok r ∧
      (Reduction.again r).Sound Γ w (.op o (pre ++ a :: later)) := by
  obtain ⟨r, hr, htyped, hweight, hvalue'⟩ := dropOperand_spec hold h ho (i := pre.length) (by simp)
  refine ⟨r, hr, .again htyped hweight, fun σ => ?_⟩
  rw [Reduction.result, hvalue' σ, eraseIdx_middle, value_regroup σ h ho, total_middle, hvalue σ]

def connectiveRule (o : Operator) :
    Int → List Expr → List Expr → Nat → Expr → List Expr → Except Fault (Option Reduction) :=
  if o = .and then andRule else orRule

/-- What opposite operands are taken for. All bits of a disjunction are set then, but what stands
for it is another number. -/
def opposed (o : Operator) (w : Int) : Expr := if o = .and then number 0 w else eitherOpposite w

section

variable (ho : o = .and ∨ o = .or)

include ho

theorem identityRule_connective {w' : Int} : identityRule o w w' old as = scan (connectiveRule o w old as) 0 as := by
  rcases ho with rfl | rfl <;> rfl

/-- The rules for conjunctions and disjunctions: the operand that decides, one that is repeated, one
whose opposite follows, and the operand that does not count. -/
theorem connectiveRule_eq (i : Nat) : connectiveRule o w old as i a later =
      if a.value? = some (~~~o.unit) then .ok (some (.done (number (~~~o.unit) w)))
      else if later.any (fun b => b.equals a) then (dropOperand o old as i).map fun r => some (.again r)
      else negationIn a later >>= fun found => if found then .ok (some (.done (opposed o w)))
        else if a.value? = some o.unit then (dropOperand o old as i).map fun r => some (.again r)
        else .ok none := by
  have hdrop : (do return some (Reduction.again (← dropOperand o old as i))) =
      (dropOperand o old as i).map fun r => some (.again r) := by
    cases dropOperand o old as i <;> rfl
  rw [← hdrop]
  rcases ho with rfl | rfl
  · change andRule w old as i a later = _
    simp only [andRule, isZero, isAllOnes, beq_iff_eq]
    rfl
  · change orRule w old as i a later = _
    simp only [orRule, isZero, isAllOnes, beq_iff_eq]
    rfl

theorem connectiveRule_answers {i : Nat} (hdecided : a.value? = some (~~~o.unit) → P (.done (number (~~~o.unit) w)))
    (hopposed : ∃ found, negationIn a later = .ok found ∧ (found → P (.done (opposed o w))))
    (hdrop : later.any (fun b => b.equals a) ∨ a.value? = some o.unit →
      ∃ r, dropOperand o old as i = .ok r ∧ P (.again r)) : Answers P (connectiveRule o w old as i a later) := by
  have hagain (h : later.any (fun b => b.equals a) ∨ a.value? = some o.unit) :
      Answers P ((dropOperand o old as i).map fun r => some (.again r)) := by
    obtain ⟨r, hr, hP⟩ := hdrop h
    rw [hr]
    exact .some hP
  obtain ⟨found, hfound, hP⟩ := hopposed
  rw [connectiveRule_eq ho, hfound]
  split
  · next hv => exact .some (hdecided hv)
  split
  · next hany => exact hagain (.inl hany)
  cases found with
  | true => exact .some (hP rfl)
  | false =>
    change Answers P (if a.value? = some o.unit then _ else _)
    split
    · next hv => exact hagain (.inr hv)
    · exact .none

theorem connectiveRule_spec (hold : (Expr.op o old).width = .ok w) (h : HasWidth Γ (.op o (pre ++ a :: later)) w) :
    Answers (fun red => red.Shrinks Γ w (.op o (pre ++ a :: later)) ∧
        ((red = .done (number (~~~o.unit) w) ∨ red = .done (opposed o w)) ∧
            (∀ σ, value σ (.op o (pre ++ a :: later)) = ~~~o.unit) ∨
          (∃ r, red = .again r) ∧ red.Keeps (.op o (pre ++ a :: later))))
      (connectiveRule o w old (pre ++ a :: later) pre.length a later) := by
  have hassoc : o.isAssociative := by rcases ho with rfl | rfl <;> rfl
  obtain ⟨-, -, hadm, has⟩ := h.regroup_inv hassoc
  have hwidth : Γ.width w := h.width_eq.2
  have ha : HasWidth Γ a w := has a (by simp)
  have hlater (x : Expr) (hx : x ∈ later) : HasWidth Γ x w := has x (by simp [hx])
  have hnumber (v : Int64) : (Reduction.done (number v w)).Shrinks Γ w (.op o (pre ++ a :: later)) :=
    .done (hasWidth_number hwidth v) (lighter_of_lt (weight_number_lt (by simp) _ _))
  have hvalue (hvalue : ∀ σ, o.total ((pre ++ a :: later).map (value σ)) = ~~~o.unit) (σ : Machine) :
      value σ (.op o (pre ++ a :: later)) = ~~~o.unit := by
    rw [value_regroup σ h hassoc, hvalue σ, wrap_absorbing ho (Γ.width_pos hwidth)]
  obtain ⟨found, hfound, hmem⟩ := negationIn_spec ha hadm hlater
  refine connectiveRule_answers ho (fun hv => ?_) ⟨found, hfound, fun htrue => ?_⟩ fun hdrop => ?_
  · refine ⟨hnumber _, .inl ⟨.inl rfl, hvalue fun σ => ?_⟩⟩
    exact total_of_absorbing ho (mem_map.mpr ⟨a, by simp, value_of_value? σ hv⟩)
  · refine ⟨?_, .inl ⟨.inr rfl, hvalue fun σ => ?_⟩⟩
    · rcases ho with rfl | rfl <;> exact hnumber _
    · rw [total_middle]
      exact mix_of_opposite ho (by rw [map_append]; exact mem_append_right _ (hmem htrue σ))
  · obtain ⟨r, hr, hshrinks, hkeeps⟩ := dropOperand_middle hold h hassoc fun σ => by
      rcases hdrop with hany | hv
      · obtain ⟨x, hx, heq⟩ := any_eq_true.mp hany
        obtain rfl := (hlater x hx).eq_of_equals ha heq
        exact mix_total_of_mem ho (mem_map_of_mem (by simp [hx]))
      · rw [value_of_value? σ hv, unit_mix]
    exact ⟨r, hr, hshrinks, .inr ⟨⟨r, rfl⟩, hkeeps⟩⟩

end

/-! ### Sums -/

theorem dropTwo_perm {i j : Nat} (hi : i < as.length) (hj : j < as.length) (hij : i ≠ j) :
    as.Perm (as[i] :: as[j] :: dropTwo as i j) := by
  have hlt {i j : Nat} (hj : j < as.length) (hij : i < j) :
      as.Perm (as[i] :: as[j] :: (as.eraseIdx j).eraseIdx i) := by
    have hi' : i < (as.eraseIdx j).length := by
      rw [length_eraseIdx_of_lt hj]
      omega
    have hget : (as.eraseIdx j)[i] = as[i] := getElem_eraseIdx_of_lt hi' hij
    have hrest := getElem_cons_eraseIdx_perm hi'
    rw [hget] at hrest
    exact (getElem_cons_eraseIdx_perm hj).symm.trans ((hrest.symm.cons _).trans (.swap _ _ _))
  rcases Nat.lt_or_gt_of_ne hij with h | h
  · rw [dropTwo, Nat.max_eq_right (Nat.le_of_lt h), Nat.min_eq_left (Nat.le_of_lt h)]
    exact hlt hj h
  · rw [dropTwo, Nat.max_eq_left (Nat.le_of_lt h), Nat.min_eq_right (Nat.le_of_lt h)]
    exact (hlt hi h).trans (.swap _ _ _)

theorem wrap_total_cancel (hb : HasWidth Γ b w) (hsum : Γ.sum w) (hadm : Admissible w)
    (hperm : as.Perm (.op .neg [b] :: b :: rest)) :
    wrap w (Operator.plus.total (as.map (value σ))) = wrap w (Operator.plus.total (rest.map (value σ))) := by
  rw [Operator.plus.total_perm (hperm.map (value σ)), map_cons, map_cons, total_cons,
    total_cons, value_neg σ hb hsum hadm, Operator.plus.wrap_mix_congr (wrap_wrap w _) rfl]
  change wrap w (-value σ b + (value σ b + _)) = _
  rw [← Int64.add_assoc, Int64.add_left_neg, Int64.zero_add]

theorem remainingSum_spec (h : HasWidth Γ (.op .plus as) w) (hb : HasWidth Γ b w)
    (hperm : as.Perm (.op .neg [b] :: b :: rest)) :
    ∃ red, remainingSum w rest = .ok red ∧ red.Sound Γ w (.op .plus as) := by
  obtain ⟨hsum, -, hadm, has⟩ := h.regroup_inv rfl
  have hrest (x : Expr) (hx : x ∈ rest) : HasWidth Γ x w := has x (hperm.mem_iff.mpr (by simp [hx]))
  have hvalue (σ : Machine) :
      value σ (.op .plus as) = wrap w (Operator.plus.total (rest.map (value σ))) := by
    rw [value_regroup σ h rfl, wrap_total_cancel σ hb (hsum rfl) hadm hperm]
  have hweight : loads .plus rest + 2 < (Expr.op .plus as).weight := by
    have := weight_pos b
    rw [weight, loads_perm hperm, loads, loads, weight]
    omega
  rcases rest with _ | ⟨x, _ | ⟨y, zs⟩⟩
  · -- nothing is left
    have hne : as ≠ [] := by
      rintro rfl
      simp at hperm
    exact ⟨_, rfl, sound_zero h hne fun σ => (hvalue σ).trans (wrap_zero w)⟩
  · -- one summand is left, which is the sum
    have hx : HasWidth Γ x w := hrest x (by simp)
    refine ⟨_, rfl, .done hx (lighter_of_lt ?_), fun σ => ?_⟩
    · rw [loads, loads] at hweight
      omega
    · rw [Reduction.result, hvalue σ, map_singleton, total_singleton, fits_value σ hx]
  · -- what is left is a sum again
    have hop : HasWidth Γ (.op .plus (x :: y :: zs)) w := .regroup rfl hsum (by simp) hadm hrest
    obtain ⟨r, hr, htyped, -, hr', hvalue'⟩ := operation_regroup hop rfl
    refine ⟨.again r, ?_, .again htyped ?_, fun σ => ?_⟩
    · rw [remainingSum, hr]
      · rfl
      · simp
      · simp
    · rw [weight] at hr'
      omega
    · rw [Reduction.result, hvalue' σ, hvalue σ, value_regroup σ hop rfl]

theorem plusRule_spec (hold : (Expr.op .plus old).width = .ok w) (h : HasWidth Γ (.op .plus (pre ++ a :: later)) w) :
    Answers (Reduction.Sound Γ w (.op .plus (pre ++ a :: later)))
      (plusRule w old (pre ++ a :: later) pre.length a later) := by
  obtain ⟨-, -, -, has⟩ := h.regroup_inv rfl
  have ha : HasWidth Γ a w := has a (by simp)
  by_cases hneg : ∃ bs, a = .op .neg bs
  · obtain ⟨bs, rfl⟩ := hneg
    obtain ⟨b, rfl, -, hb⟩ := ha.neg_inv
    unfold plusRule
    rw [if_neg (by simp [isZero, value?])]
    dsimp only
    split
    · exact .none
    · next j hj =>
      obtain ⟨hlt, hequals, -⟩ := findIdx?_eq_some_iff_getElem.mp hj
      have hget : b = (pre ++ .op .neg [b] :: later)[j] :=
        hb.eq_of_equals (has _ (getElem_mem hlt)) hequals
      have hi : pre.length < (pre ++ .op .neg [b] :: later).length := by simp
      have hgeti : (pre ++ Expr.op .neg [b] :: later)[pre.length] = .op .neg [b] := by simp
      have hij : pre.length ≠ j := by
        rintro rfl
        have hweight := congrArg weight (hget.trans hgeti)
        rw [weight_unary (by decide)] at hweight
        omega
      have hperm := dropTwo_perm hi hlt hij
      rw [hgeti, ← hget] at hperm
      obtain ⟨red, hred, hspec⟩ := remainingSum_spec h hb hperm
      rw [hred]
      exact .some hspec
  · unfold plusRule
    split
    · next hz =>
      obtain ⟨r, hr, hspec⟩ := dropOperand_middle hold h rfl fun σ => by
        rw [value_of_isZero σ hz]
        exact unit_mix .plus _
      rw [hr]
      exact .some hspec
    · split
      · next b bs _ => exact absurd ⟨_, rfl⟩ hneg
      · exact .none

end Expr

end FlowRecovery
