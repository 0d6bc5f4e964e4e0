import FlowRecovery.Proofs.Expr.Widths

/-!
# Building keeps meaning

The normal forms in which expressions are built change neither their width nor their value, and they
make no expression heavier:

* `operation_regroup`: sums, conjunctions and disjunctions, where nested operations are written as
  one;
* `operation_not`, `operation_neg`: negations and negatives, where two in a row are dropped and the
  negative of a sum is the sum of the negatives.

The *weight* of an expression counts its nodes, and a summand that is not a negative twice. It
bounds how deep an evaluation goes: the negative of a sum is no heavier when the sign is moved to
the summands.
-/

namespace FlowRecovery

open Word List

namespace Operator

/-! ### Totals -/

variable (o : Operator)

theorem mix_comm (a b : Int64) : o.mix a b = o.mix b a := by
  cases o with
  | and => exact Int64.and_comm a b
  | or => exact Int64.or_comm a b
  | _ => exact Int64.add_comm a b

theorem mix_assoc (a b c : Int64) : o.mix (o.mix a b) c = o.mix a (o.mix b c) := by
  cases o with
  | and => exact Int64.and_assoc a b c
  | or => exact Int64.or_assoc a b c
  | _ => exact Int64.add_assoc a b c

theorem unit_mix (a : Int64) : o.mix o.unit a = a := by
  cases o with
  | and => exact Int64.neg_one_and
  | or => exact Int64.zero_or
  | _ => exact Int64.zero_add a

theorem wrap_mix (w : Int) (a b : Int64) : wrap w (o.mix (wrap w a) (wrap w b)) = wrap w (o.mix a b) := by
  cases o with
  | and => simp only [mix, wrap_and, wrap_wrap]
  | or => simp only [mix, wrap_or, wrap_wrap]
  | _ => exact wrap_add w a b

theorem wrap_mix_congr {w : Int} {a a' b b' : Int64} (ha : wrap w a = wrap w a')
    (hb : wrap w b = wrap w b') : wrap w (o.mix a b) = wrap w (o.mix a' b') := by
  rw [← wrap_mix, ha, hb, wrap_mix]

@[simp] theorem total_nil : o.total [] = o.unit := rfl

@[simp] theorem total_cons (v : Int64) (vs : List Int64) : o.total (v :: vs) = o.mix v (o.total vs) := rfl

theorem total_singleton (v : Int64) : o.total [v] = v := by
  rw [total_cons, mix_comm, total_nil, unit_mix]

theorem total_append (vs us : List Int64) : o.total (vs ++ us) = o.mix (o.total vs) (o.total us) := by
  induction vs with
  | nil => rw [nil_append, total_nil, unit_mix]
  | cons v vs ih => rw [cons_append, total_cons, ih, total_cons, mix_assoc]

theorem total_perm {vs us : List Int64} (h : vs.Perm us) : o.total vs = o.total us := by
  refine h.foldr_eq' (fun a _ b _ c => ?_) _
  rw [← mix_assoc, mix_comm o b a, mix_assoc]

end Operator

namespace Expr

/-! ### Weight -/

def isNegative : Expr → Bool
  | .op .neg _ => true
  | _ => false

/-- What an operand adds to the weight of an operation beside its own: a summand that is not a
negative counts twice. -/
def burden (o : Operator) (a : Expr) : Nat := if o = .plus ∧ a.isNegative = false then 1 else 0

mutual

/-- The number of nodes, where the nodes of summands count twice. -/
def weight : Expr → Nat
  | .op o as => 1 + loads o as
  | .special _ as => 1 + loads .unknown as
  | .bits x f l => 1 + weight x + weight f + weight l
  | .cond c t f => 1 + weight c + weight t + weight f
  | .mem _ a _ _ => 1 + weight a
  | _ => 1

def loads (o : Operator) : List Expr → Nat
  | [] => 0
  | a :: as => weight a + burden o a + loads o as

end

def load (o : Operator) (e : Expr) : Nat := e.weight + burden o e

/-- As an operand, the second expression is no heavier than the first. -/
def Lighter (e r : Expr) : Prop := ∀ o, load o r ≤ load o e

theorem loads_eq_sum (o : Operator) (as : List Expr) : loads o as = (as.map (load o)).sum := by
  induction as with
  | nil => rfl
  | cons a as ih => rw [loads, ih, map_cons, sum_cons, load]

theorem loads_append (o : Operator) (as bs : List Expr) : loads o (as ++ bs) = loads o as + loads o bs := by
  rw [loads_eq_sum, loads_eq_sum, loads_eq_sum, map_append, sum_append]

theorem weight_pos (e : Expr) : 0 < e.weight := by
  cases e with
  | op | special | bits | cond | mem =>
    rw [weight]
    omega
  | num | var | nondet => exact Nat.one_pos

theorem burden_le_one (o : Operator) (e : Expr) : burden o e ≤ 1 := by
  unfold burden
  split <;> omega

theorem burden_of_ne {o : Operator} (h : o ≠ .plus) (e : Expr) : burden o e = 0 := if_neg fun hplus => h hplus.1

theorem weight_le_load (o : Operator) (e : Expr) : e.weight ≤ load o e := Nat.le_add_right _ _

theorem load_of_ne {o : Operator} (h : o ≠ .plus) (e : Expr) : load o e = e.weight := by
  rw [load, burden_of_ne h, Nat.add_zero]

theorem load_plus {e : Expr} (h : e.isNegative = false) : load .plus e = e.weight + 1 := by
  rw [load, burden, if_pos ⟨rfl, h⟩]

theorem load_plus_neg (as : List Expr) : load .plus (.op .neg as) = (Expr.op .neg as).weight :=
  congrArg _ (if_neg fun h => Bool.noConfusion h.2)

theorem weight_unary {o : Operator} (h : o ≠ .plus) (a : Expr) : (Expr.op o [a]).weight = a.weight + 1 := by
  rw [weight, loads, loads, burden_of_ne h]
  omega

theorem Lighter.refl (e : Expr) : Lighter e e := fun _ => Nat.le_refl _

theorem Lighter.trans {e f g : Expr} (hef : Lighter e f) (hfg : Lighter f g) : Lighter e g :=
  fun o => Nat.le_trans (hfg o) (hef o)

theorem Lighter.weight_le {e r : Expr} (h : Lighter e r) : r.weight ≤ e.weight := by
  have := h .unknown
  rwa [load_of_ne (by decide), load_of_ne (by decide)] at this

theorem lighter_of_lt {e r : Expr} (h : r.weight < e.weight) : Lighter e r := by
  intro o
  have := burden_le_one o r
  unfold load
  omega

theorem lighter_of_le {e r : Expr} (he : e.isNegative = false) (h : r.weight ≤ e.weight) : Lighter e r := by
  intro o
  by_cases hplus : o = .plus
  · subst hplus
    rw [load_plus he]
    exact Nat.add_le_add h (burden_le_one .plus r)
  · rw [load_of_ne hplus, load_of_ne hplus]
    exact h

/-! ### Typed operations -/

variable {Γ : Vocabulary} {o : Operator} {as : List Expr} {a b : Expr} {w : Int}

theorem HasWidth.regroup_inv (h : HasWidth Γ (.op o as) w) (ho : o.isAssociative) :
    (o = .plus → Γ.sum w) ∧ 2 ≤ as.length ∧ Admissible w ∧ ∀ a ∈ as, HasWidth Γ a w := by
  cases o with
  | plus | and | or =>
    cases h with
    | regroup _ hsum hlen hadm has => exact ⟨hsum, hlen, hadm, has⟩
    | compare ho | arith _ ho | functional _ ho | unknown _ ho => cases ho
  | _ => cases ho

theorem HasWidth.not_inv (h : HasWidth Γ (.op .not as) w) : ∃ a, as = [a] ∧ HasWidth Γ a w := by
  cases h with
  | not _ ha => exact ⟨_, rfl, ha⟩
  | regroup ho | compare ho | arith _ ho | functional _ ho | unknown _ ho => cases ho

theorem HasWidth.neg_inv (h : HasWidth Γ (.op .neg as) w) : ∃ a, as = [a] ∧ Γ.sum w ∧ HasWidth Γ a w := by
  cases h with
  | neg hsum _ ha => exact ⟨_, rfl, hsum, ha⟩
  | regroup ho | compare ho | arith _ ho | functional _ ho | unknown _ ho => cases ho

theorem apply_eq_ok {r : Expr} (h : apply o as = .ok r) : r = .op o as := by
  unfold apply at h
  obtain ⟨w, -, h⟩ := of_bind_eq_ok h
  split at h
  · exact (Except.ok.inj h).symm
  · cases h

theorem HasWidth.apply_eq (h : HasWidth Γ (.op o as) w) (hadm : Admissible w) : apply o as = .ok (.op o as) := by
  have hwidth := h.width_eq.1
  rw [width] at hwidth
  unfold apply
  rw [hwidth]
  change (if w == 1 || w % 8 == 0 then _ else _) = _
  rw [if_pos (by rcases hadm with rfl | hadm <;> simp [*])]
  rfl

theorem value_regroup (σ : Machine) (h : HasWidth Γ (.op o as) w) (ho : o.isAssociative) :
    value σ (.op o as) = wrap w (o.total (as.map (value σ))) := by
  rw [value, h.widthOf_eq, values_eq_map]
  cases o <;> first | rfl | cases ho

theorem value_not (σ : Machine) (ha : HasWidth Γ a w) (hadm : Admissible w) :
    value σ (.op .not [a]) = ~~~value σ a := by
  rw [value, HasWidth.widthOf_eq (.not hadm ha)]
  change wrap w (~~~value σ a) = _
  rw [wrap_not ha.width_pos, fits_value σ ha]

theorem value_neg (σ : Machine) (ha : HasWidth Γ a w) (hsum : Γ.sum w) (hadm : Admissible w) :
    value σ (.op .neg [a]) = wrap w (-value σ a) := by
  rw [value, HasWidth.widthOf_eq (.neg hsum hadm ha)]
  rfl

/-! ### Regrouping -/

variable {bs : List Expr}

theorem operandsOf_eq_some (h : operandsOf o a = some bs) : a = .op o bs := by
  cases a with
  | op o' as =>
    rw [operandsOf] at h
    split at h
    · next ho =>
      rw [eq_of_beq ho, Option.some.inj h]
    · cases h
  | _ => cases h

theorem flatten_cons_of_none (h : operandsOf o a = none) : flatten o (a :: as) = a :: flatten o as := by
  simp [flatten, h]

theorem flatten_cons_of_some (h : operandsOf o a = some bs) : (flatten o (a :: as)).Perm (bs ++ flatten o as) := by
  simp only [flatten, filter_cons, flatMap_cons, h, Option.isNone_some, Option.getD_some, Bool.false_eq_true,
    if_false]
  exact perm_append_comm_assoc _ _ _

theorem loads_perm (h : as.Perm bs) : loads o as = loads o bs := by
  rw [loads_eq_sum, loads_eq_sum]
  exact (h.map _).sum_nat

theorem loads_flatten (o : Operator) (as : List Expr) : loads o (flatten o as) ≤ loads o as := by
  induction as with
  | nil => exact Nat.le_refl _
  | cons a as ih =>
    cases hops : operandsOf o a with
    | none =>
      rw [flatten_cons_of_none hops, loads, loads]
      omega
    | some bs =>
      rw [loads_perm (flatten_cons_of_some hops), operandsOf_eq_some hops, loads_append, loads, weight]
      omega

/-- Writing nested operations as one keeps the total of the operands, in a class of expressions that
has the operands of its operations. -/
theorem flatten_of_inv {P : Expr → Prop} (hinv : ∀ bs, P (.op o bs) → 2 ≤ bs.length ∧ (∀ b ∈ bs, P b) ∧
      ∀ σ, value σ (.op o bs) = wrap w (o.total (bs.map (value σ)))) (has : ∀ a ∈ as, P a) :
    (∀ a ∈ flatten o as, P a) ∧ as.length ≤ (flatten o as).length ∧ loads o (flatten o as) ≤ loads o as ∧
      ∀ σ, wrap w (o.total ((flatten o as).map (value σ))) = wrap w (o.total (as.map (value σ))) := by
  induction as with
  | nil => exact ⟨by simp [flatten], Nat.zero_le _, Nat.le_refl _, fun σ => rfl⟩
  | cons a as ih =>
    obtain ⟨ha, has⟩ := forall_mem_cons.mp has
    obtain ⟨hall, hlen, -, htotal⟩ := ih has
    have hloads := loads_flatten o (a :: as)
    cases hops : operandsOf o a with
    | none =>
      rw [flatten_cons_of_none hops] at hloads ⊢
      refine ⟨forall_mem_cons.mpr ⟨ha, hall⟩, Nat.succ_le_succ hlen, hloads, fun σ => ?_⟩
      rw [map_cons, map_cons, Operator.total_cons, Operator.total_cons]
      exact o.wrap_mix_congr rfl (htotal σ)
    | some bs =>
      have hperm : (flatten o (a :: as)).Perm (bs ++ flatten o as) := flatten_cons_of_some hops
      obtain rfl := operandsOf_eq_some hops
      obtain ⟨htwo, hbs, hvalue⟩ := hinv bs ha
      refine ⟨fun x hx => ?_, ?_, hloads, fun σ => ?_⟩
      · rcases mem_append.mp (hperm.mem_iff.mp hx) with hx | hx
        · exact hbs x hx
        · exact hall x hx
      · rw [hperm.length_eq, length_append, length_cons]
        omega
      · rw [o.total_perm (hperm.map _), map_append, Operator.total_append, map_cons, Operator.total_cons,
          hvalue σ]
        exact o.wrap_mix_congr (wrap_wrap w _).symm (htotal σ)

theorem flatten_spec (ho : o.isAssociative) (has : ∀ a ∈ as, HasWidth Γ a w) :
    (∀ a ∈ flatten o as, HasWidth Γ a w) ∧ as.length ≤ (flatten o as).length ∧ loads o (flatten o as) ≤ loads o as ∧
      ∀ σ, wrap w (o.total ((flatten o as).map (value σ))) = wrap w (o.total (as.map (value σ))) := by
  refine flatten_of_inv (fun bs h => ?_) has
  obtain ⟨-, hlen, -, hbs⟩ := h.regroup_inv ho
  exact ⟨hlen, hbs, fun σ => value_regroup σ h ho⟩

theorem operation_regroup (h : HasWidth Γ (.op o as) w) (ho : o.isAssociative) :
    ∃ r, operation o as = .ok r ∧ HasWidth Γ r w ∧ r.isNegative = false ∧ r.weight ≤ (Expr.op o as).weight ∧
      ∀ σ, value σ r = value σ (.op o as) := by
  obtain ⟨hsum, hlen, hadm, has⟩ := h.regroup_inv ho
  obtain ⟨hall, hlen', hloads, htotal⟩ := flatten_spec ho has
  have hr : HasWidth Γ (.op o (flatten o as)) w := .regroup ho hsum (Nat.le_trans hlen hlen') hadm hall
  refine ⟨.op o (flatten o as), ?_, hr, ?_, ?_, fun σ => ?_⟩
  · rw [← hr.apply_eq hadm]
    cases o <;> first | rfl | cases ho
  · cases o <;> first | rfl | cases ho
  · rw [weight, weight]
    omega
  · rw [value_regroup σ hr ho, value_regroup σ h ho, htotal]

/-! ### Negations and negatives -/

theorem operation_not (ha : HasWidth Γ a w) (hadm : Admissible w) :
    ∃ r, operation .not [a] = .ok r ∧ HasWidth Γ r w ∧ r.weight ≤ a.weight + 1 ∧ ∀ σ, value σ r = ~~~value σ a := by
  by_cases hnot : ∃ bs, a = .op .not bs
  · obtain ⟨bs, rfl⟩ := hnot
    obtain ⟨b, rfl, hb⟩ := ha.not_inv
    refine ⟨b, rfl, hb, ?_, fun σ => ?_⟩
    · rw [weight, loads]
      omega
    · rw [value_not σ hb hadm, Int64.not_not]
  · have hr : HasWidth Γ (.op .not [a]) w := .not hadm ha
    refine ⟨.op .not [a], ?_, hr, ?_, fun σ => value_not σ ha hadm⟩
    · rw [← hr.apply_eq hadm]
      cases a with
      | op o bs =>
        cases o with
        | not => exact absurd ⟨bs, rfl⟩ hnot
        | _ => rfl
      | _ => rfl
    · exact Nat.le_of_eq (weight_unary (by decide) a)

def negation : Expr → Expr
  | .op .neg (a :: _) => a
  | a => .op .neg [a]

theorem negation_lighter (a : Expr) : Lighter (.op .neg [a]) (negation a) := by
  unfold negation
  split
  · next b bs =>
    refine lighter_of_lt ?_
    rw [weight_unary (by decide), weight, loads]
    omega
  · exact .refl _

theorem negated_spec (ha : HasWidth Γ a w) (hsum : Γ.sum w) (hadm : Admissible w) :
    negated a = .ok (negation a) ∧ HasWidth Γ (negation a) w ∧ load .plus (negation a) ≤ load .plus a ∧
      ∀ σ, value σ (negation a) = wrap w (-value σ a) := by
  by_cases hneg : ∃ bs, a = .op .neg bs
  · obtain ⟨bs, rfl⟩ := hneg
    obtain ⟨b, rfl, -, hb⟩ := ha.neg_inv
    refine ⟨rfl, hb, ?_, fun σ => ?_⟩
    · change load .plus b ≤ load .plus (.op .neg [b])
      rw [load_plus_neg, weight_unary (by decide)]
      exact Nat.add_le_add_left (burden_le_one .plus b) _
    · change value σ b = _
      rw [value_neg σ hb hsum hadm, wrap_neg, Int64.neg_neg, fits_value σ hb]
  · have hr : HasWidth Γ (.op .neg [a]) w := .neg hsum hadm ha
    have hnegation : negation a = .op .neg [a] ∧ negated a = apply .neg [a] ∧ a.isNegative = false := by
      cases a with
      | op o bs =>
        cases o with
        | neg => exact absurd ⟨bs, rfl⟩ hneg
        | _ => exact ⟨rfl, rfl, rfl⟩
      | _ => exact ⟨rfl, rfl, rfl⟩
    obtain ⟨hnegation, hnegated, hburden⟩ := hnegation
    have hload : load .plus (.op .neg [a]) = load .plus a := by
      rw [load_plus_neg, weight_unary (by decide), load_plus hburden]
    rw [hnegation, hnegated, hr.apply_eq hadm]
    exact ⟨rfl, hr, Nat.le_of_eq hload, fun σ => value_neg σ ha hsum hadm⟩

theorem mapM_negated_spec (has : ∀ a ∈ as, HasWidth Γ a w) (hsum : Γ.sum w) (hadm : Admissible w) :
    as.mapM negated = .ok (as.map negation) ∧ (∀ a ∈ as.map negation, HasWidth Γ a w) ∧
      loads .plus (as.map negation) ≤ loads .plus as ∧
      ∀ σ, wrap w (Operator.plus.total ((as.map negation).map (value σ))) =
        wrap w (-Operator.plus.total (as.map (value σ))) := by
  induction as with
  | nil => exact ⟨rfl, by simp, Nat.le_refl _, fun σ => congrArg _ Int64.neg_zero.symm⟩
  | cons a as ih =>
    obtain ⟨ha, has⟩ := forall_mem_cons.mp has
    obtain ⟨hok, htyped, hload, hvalue⟩ := negated_spec ha hsum hadm
    obtain ⟨hoks, htypeds, hloads, hvalues⟩ := ih has
    refine ⟨?_, ?_, ?_, fun σ => ?_⟩
    · rw [mapM_cons, hok, hoks]
      rfl
    · rw [map_cons]
      exact forall_mem_cons.mpr ⟨htyped, htypeds⟩
    · rw [loads_eq_sum, loads_eq_sum] at hloads ⊢
      simp only [map_cons, sum_cons] at hloads ⊢
      omega
    · simp only [map_cons, Operator.total_cons, hvalue σ]
      rw [Operator.plus.wrap_mix_congr (wrap_wrap w (-value σ a)) (hvalues σ)]
      change wrap w (-value σ a + -_) = wrap w (-(value σ a + _))
      rw [Int64.neg_add, Int64.sub_eq_add_neg]

theorem operation_neg (ha : HasWidth Γ a w) (hsum : Γ.sum w) (hadm : Admissible w) :
    ∃ r, operation .neg [a] = .ok r ∧ HasWidth Γ r w ∧ Lighter (.op .neg [a]) r ∧
      ∀ σ, value σ r = wrap w (-value σ a) := by
  by_cases hplus : ∃ bs, a = .op .plus bs
  · obtain ⟨bs, rfl⟩ := hplus
    obtain ⟨-, hlen, -, hbs⟩ := ha.regroup_inv rfl
    obtain ⟨hok, htyped, hload, hvalue⟩ := mapM_negated_spec hbs hsum hadm
    have hr : HasWidth Γ (.op .plus (bs.map negation)) w :=
      .regroup rfl (fun _ => hsum) (by rwa [length_map]) hadm htyped
    refine ⟨.op .plus (bs.map negation), ?_, hr, lighter_of_lt ?_, fun σ => ?_⟩
    · change (bs.mapM negated >>= fun as => apply .plus as) = _
      rw [hok]
      exact hr.apply_eq hadm
    · rw [weight_unary (by decide), weight, weight]
      omega
    · rw [value_regroup σ hr rfl, hvalue, value_regroup σ ha rfl, wrap_neg]
  · -- otherwise the negative of the operand is built as that of a summand is
    obtain ⟨hok, htyped, hload, hvalue⟩ := negated_spec ha hsum hadm
    refine ⟨negation a, ?_, htyped, ?_, hvalue⟩
    · rw [← hok]
      cases a with
      | op o bs =>
        cases o with
        | plus => exact absurd ⟨bs, rfl⟩ hplus
        | neg =>
          cases bs with
          | nil => rfl
          | cons b bs => rfl
        | _ => rfl
      | _ => rfl
    · exact negation_lighter a

end Expr

end FlowRecovery
