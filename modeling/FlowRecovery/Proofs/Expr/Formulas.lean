import FlowRecovery.Proofs.Expr.Conditions

/-!
# Formulas

A formula is built from tests by conjunction and disjunction, where tests may be negated
(`Formula`). What tests are is left open: all that is asked of them is that they are comparisons
which evaluation leaves as they are (`Tests`). Their numbers need not have widths, so formulas are
also what the conditions of a template become before widths are known.

Evaluation may drop operands of a formula, and decide it; but what it gives is a formula of the same
value:

* `reduce_connective`: one step, on operands that are formulas;
* `Formula.evaluates`: the evaluation of a whole formula, by induction on its weight;
* `Formula.exists_inferWidth`: tests get their widths, and all else stays;
* `Formula.plain`: no rule of simplification applies.
-/

namespace FlowRecovery

open Word List

namespace Expr

variable {A B : Expr → Prop} {Γ : Vocabulary} {c : Context} {k n i : Nat} {o : Operator} {a b e r : Expr}
  {as bs old pre later : List Expr}

/-- The expression is built from the tests `A`. -/
inductive Formula (A : Expr → Prop) : Expr → Prop where
  | known (t : Bool) : Formula A (ofBool t)
  | test {a : Expr} (h : A a) : Formula A a
  | opposite {a : Expr} (h : A a) : Formula A (.op .not [a])
  | connective {o : Operator} {as : List Expr} (ho : o = .and ∨ o = .or) (hlen : 2 ≤ as.length)
      (has : ∀ a ∈ as, Formula A a) : Formula A (.op o as)

/-- Tests are comparisons of the vocabulary that evaluation in the context `c` keeps. -/
structure Tests (Γ : Vocabulary) (c : Context) (k : Nat) (A : Expr → Prop) : Prop where
  compares {a : Expr} (h : A a) : ∃ x y, a = .op .less [x, y]
  declared {a : Expr} (h : A a) : Declared Γ.declared a
  kept {a : Expr} (h : A a) : Becomes c k a a

theorem Tests.width (hA : Tests Γ c k A) (h : A a) : a.width = .ok 1 := by
  obtain ⟨x, y, rfl⟩ := hA.compares h
  rfl

/-! ### Widths and values -/

namespace Formula

theorem width (hA : Tests Γ c k A) (h : Formula A e) : e.width = .ok 1 := by
  induction h with
  | known t => cases t <;> rfl
  | test h => exact hA.width h
  | @opposite a h =>
    have ha : a.width = .ok 1 := hA.width h
    exact ha
  | connective ho hlen _ ih =>
    refine operationWidth_connective ho ?_ ih
    rintro rfl
    cases hlen

theorem declared (hA : Tests Γ c k A) (h : Formula A e) : Declared Γ.declared e := by
  induction h with
  | known t => cases t <;> trivial
  | test h => exact hA.declared h
  | opposite h => exact ⟨hA.declared h, trivial⟩
  | connective _ _ _ ih => exact allDeclared_iff.mpr ih

end Formula

section

variable (σ : Machine)

include σ

theorem value_num (v : Int64) (w : Int) : value σ (.num v w) = v := by
  rw [value]

theorem value_op {w : Int} (h : (Expr.op o as).width = .ok w) :
    value σ (.op o as) = σ.apply o w (as.map widthOf) (as.map (value σ)) := by
  have hwidth : (op o as).widthOf = w := by rw [widthOf, h]
  rw [value, hwidth, values_eq_map]

theorem value_connective (ho : o = .and ∨ o = .or) (h : (Expr.op o as).width = .ok 1) :
    value σ (.op o as) = wrap 1 (o.total (as.map (value σ))) := by
  rw [value_op σ h]
  rcases ho with rfl | rfl <;> rfl

theorem value_opposite (ha : a.width = .ok 1) (hfits : Fits 1 (value σ a)) : value σ (.op .not [a]) = ~~~value σ a := by
  rw [value_op σ (show (op .not [a]).width = .ok 1 from ha)]
  change wrap 1 (~~~value σ a) = _
  rw [wrap_not (by decide), hfits]

theorem value_less (x y : Expr) : value σ (.op .less [x, y]) = truthWord (value σ x < value σ y) := by
  rw [value_op σ (show (op .less [x, y]).width = .ok 1 from rfl)]
  exact truthWord_fits _

theorem value_ofBool (t : Bool) : value σ (ofBool t) = truthWord t := by
  cases t <;> exact value_num σ _ 1

end

namespace Formula

section

variable (hA : Tests Γ c k A)

include hA

theorem fits (h : Formula A e) (σ : Machine) : Fits 1 (value σ e) := by
  have htest {a : Expr} (h : A a) : Fits 1 (value σ a) := by
    obtain ⟨x, y, rfl⟩ := hA.compares h
    rw [value_less]
    exact truthWord_fits _
  cases h with
  | known t =>
    rw [value_ofBool]
    exact truthWord_fits t
  | test h => exact htest h
  | @opposite a h =>
    rw [value_opposite σ (hA.width h) (htest h), Fits, wrap_not (by decide), htest h]
  | connective ho hlen has =>
    rw [value_connective σ ho ((connective ho hlen has).width hA)]
    exact fits_wrap 1 _

theorem value_complement (h : Formula A e) (σ : Machine) : value σ e.complement = ~~~value σ e := by
  -- everything but a negated test is negated
  have hnot (hshape : e.complement = .op .not [e]) : value σ e.complement = ~~~value σ e := by
    rw [hshape]
    exact value_opposite σ (h.width hA) (h.fits hA σ)
  cases h with
  | known t => exact hnot (by cases t <;> rfl)
  | test h =>
    obtain ⟨x, y, rfl⟩ := hA.compares h
    exact hnot rfl
  | @opposite a h =>
    have ha : Fits 1 (value σ a) := (test h).fits hA σ
    rw [value_opposite σ (hA.width h) ha, Int64.not_not]
    rfl
  | connective ho =>
    rcases ho with rfl | rfl <;> exact hnot rfl

theorem declared_complement (h : Formula A e) : Declared Γ.declared e.complement := by
  unfold complement
  split
  · exact (h.declared hA).1
  · exact ⟨h.declared hA, trivial⟩

theorem operator (h : Formula A (.op o as)) : o = .less ∨ o = .not ∨ o = .and ∨ o = .or := by
  generalize he : op o as = e at h
  cases h with
  | known t => cases t <;> cases he
  | test h =>
    obtain ⟨x, y, rfl⟩ := hA.compares h
    cases he
    exact .inl rfl
  | opposite h =>
    cases he
    exact .inr (.inl rfl)
  | connective ho =>
    cases he
    exact .inr (.inr ho)

theorem known_of_isNumber (h : Formula A e) (hnum : e.isNumber) : ∃ t, e = ofBool t := by
  cases h with
  | known t => exact ⟨t, rfl⟩
  | test h =>
    obtain ⟨x, y, rfl⟩ := hA.compares h
    cases hnum
  | opposite h => cases hnum
  | connective => cases hnum

end

end Formula

/-! ### Building -/

/-- The formula `r` has the value of `e` and is no heavier. -/
structure Restates (A : Expr → Prop) (e r : Expr) : Prop where
  formula : Formula A r
  weight_le : r.weight ≤ e.weight
  value_eq (σ : Machine) : value σ r = value σ e

theorem Restates.refl (h : Formula A e) : Restates A e e := ⟨h, Nat.le_refl _, fun _ => rfl⟩

theorem Restates.trans {q : Expr} (h : Restates A e r) (h' : Restates A r q) : Restates A e q :=
  ⟨h'.formula, Nat.le_trans h'.weight_le h.weight_le, fun σ => (h'.value_eq σ).trans (h.value_eq σ)⟩

section

variable (hA : Tests Γ c k A) (ho : o = .and ∨ o = .or)

include hA ho

theorem Formula.connective_inv (h : Formula A (.op o as)) : 2 ≤ as.length ∧ ∀ a ∈ as, Formula A a := by
  generalize he : op o as = e at h
  cases h with
  | known t => cases t <;> cases he
  | test h =>
    obtain ⟨x, y, rfl⟩ := hA.compares h
    rcases ho with rfl | rfl <;> cases he
  | opposite h => rcases ho with rfl | rfl <;> cases he
  | connective _ hlen has =>
    cases he
    exact ⟨hlen, has⟩

theorem operation_formulas (hlen : 2 ≤ as.length)
    (has : ∀ a ∈ as, Formula A a) : ∃ r, operation o as = .ok r ∧ Restates A (.op o as) r := by
  have hinv (bs : List Expr) (h : Formula A (.op o bs)) : 2 ≤ bs.length ∧ (∀ b ∈ bs, Formula A b) ∧
      ∀ σ, value σ (.op o bs) = wrap 1 (o.total (bs.map (value σ))) := by
    obtain ⟨hlen, hbs⟩ := h.connective_inv hA ho
    exact ⟨hlen, hbs, fun σ => value_connective σ ho (h.width hA)⟩
  obtain ⟨hall, hlen', hloads, htotal⟩ := flatten_of_inv hinv has
  have hr : Formula A (.op o (flatten o as)) := .connective ho (Nat.le_trans hlen hlen') hall
  refine ⟨.op o (flatten o as), ?_, hr, ?_, fun σ => ?_⟩
  · have happly : apply o (flatten o as) = .ok (.op o (flatten o as)) := by
      have hwidth := hr.width hA
      rw [width] at hwidth
      rw [apply, hwidth]
      rfl
    rcases ho with rfl | rfl <;> exact happly
  · rw [weight, weight]
    omega
  · rw [value_connective σ ho (hr.width hA), value_connective σ ho ((Formula.connective ho hlen has).width hA), htotal]

theorem dropOperand_formulas
    (hold : operationWidth o old (widths old) = .ok 1) (hlen : 2 ≤ as.length) (has : ∀ a ∈ as, Formula A a)
    (hi : i < as.length) : ∃ r, dropOperand o old as i = .ok r ∧ Formula A r ∧ r.weight < (Expr.op o as).weight ∧
      ∀ σ, value σ r = wrap 1 (o.total ((as.eraseIdx i).map (value σ))) := by
  refine dropOperand_of_operation hold hlen hi (fun a ha => ⟨has a ha, (has a ha).fits hA⟩) fun htwo => ?_
  have hrest (a : Expr) (ha : a ∈ as.eraseIdx i) : Formula A a := has a (mem_of_mem_eraseIdx ha)
  have hwidth := (Formula.connective ho htwo hrest).width hA
  obtain ⟨r, hr, hformula, hweight, hvalue⟩ := operation_formulas hA ho htwo hrest
  refine ⟨hwidth, r, hr, hformula, hweight, fun σ => ?_⟩
  rw [hvalue, value_connective σ ho hwidth]

end

/-! ### Evaluation -/

/-- An answer to what becomes of the expression `e` is a formula of the same value. If it is to be
evaluated again, it is lighter. -/
structure Reduction.Restates (A : Expr → Prop) (e : Expr) (red : Reduction) : Prop where
  result : Expr.Restates A e red.result
  lt_of_again {r : Expr} (h : red = .again r) : r.weight < e.weight

theorem connectiveRule_formulas (hA : Tests Γ c k A) (ho : o = .and ∨ o = .or)
    (hold : operationWidth o old (widths old) = .ok 1) (hlen : 2 ≤ (pre ++ a :: later).length)
    (has : ∀ x ∈ pre ++ a :: later, Formula A x) : Answers (fun red => red.Restates A (.op o (pre ++ a :: later)))
      (connectiveRule o 1 old (pre ++ a :: later) pre.length a later) := by
  have ha : Formula A a := has a (by simp)
  have hvalue (σ : Machine) : value σ (.op o (pre ++ a :: later)) =
      wrap 1 (o.mix (value σ a) (o.total ((pre ++ later).map (value σ)))) := by
    rw [value_connective σ ho ((Formula.connective ho hlen has).width hA), total_middle]
  have hdecided (h : ∀ σ, o.mix (value σ a) (o.total ((pre ++ later).map (value σ))) = ~~~o.unit) :
      (Reduction.done (ofBool (o == .or))).Restates A (.op o (pre ++ a :: later)) := by
    refine ⟨⟨.known _, ?_, fun σ => ?_⟩, nofun⟩
    · have := weight_pos (.op o (pre ++ a :: later))
      have hone : (ofBool (o == .or)).weight = 1 := by cases o == .or <;> rfl
      rw [Reduction.result, hone]
      exact this
    · rw [Reduction.result, hvalue, h, value_ofBool]
      rcases ho with rfl | rfl <;> decide
  have hopposed : opposed o 1 = ofBool (o == .or) := by rcases ho with rfl | rfl <;> rfl
  refine connectiveRule_answers ho (fun hv => ?_) ⟨_, negationIn_eq (ha.width hA) later, fun hany => ?_⟩ fun hdrop => ?_
  · have hnumber : number (~~~o.unit) 1 = ofBool (o == .or) := by rcases ho with rfl | rfl <;> rfl
    rw [hnumber]
    refine hdecided fun σ => ?_
    rw [← total_middle]
    exact total_of_absorbing ho (mem_map.mpr ⟨a, by simp, value_of_value? σ hv⟩)
  · obtain ⟨x, hx, heq⟩ := any_eq_true.mp hany
    obtain rfl := eq_of_equals ((has x (by simp [hx])).declared hA) (ha.declared_complement hA) heq
    rw [hopposed]
    refine hdecided fun σ => mix_of_opposite ho ?_
    rw [← ha.value_complement hA σ]
    exact mem_map_of_mem (by simp [hx])
  · obtain ⟨r, hr, hformula, hweight, hrest⟩ := dropOperand_formulas hA ho hold hlen has (i := pre.length) (by simp)
    refine ⟨r, hr, ⟨hformula, Nat.le_of_lt hweight, fun σ => ?_⟩, fun heq => by cases heq; exact hweight⟩
    rw [Reduction.result, hrest, eraseIdx_middle, hvalue]
    rcases hdrop with hany | hv
    · obtain ⟨x, hx, heq⟩ := any_eq_true.mp hany
      obtain rfl := eq_of_equals ((has x (by simp [hx])).declared hA) (ha.declared hA) heq
      rw [mix_total_of_mem ho (mem_map_of_mem (by simp [hx]))]
    · rw [value_of_value? σ hv, Operator.unit_mix]

section

variable (hA : Tests Γ c k A)

include hA

theorem isNumber_of_connectiveRule (ho : o = .and ∨ o = .or) (ha : Formula A a)
    (h : connectiveRule o 1 old as i a later = .ok none) : a.isNumber = false := by
  by_contra hnum
  obtain ⟨t, rfl⟩ := ha.known_of_isNumber hA (by simpa using hnum)
  have hvalue : (ofBool t).value? = some (~~~o.unit) ∨ (ofBool t).value? = some o.unit := by
    rcases ho with rfl | rfl <;> cases t <;> decide
  rw [connectiveRule_eq ho, negationIn_eq (ha.width hA)] at h
  simp only [ok_bind] at h
  have hmap : (dropOperand o old as i).map (fun r => some (Reduction.again r)) ≠ .ok none := by
    cases dropOperand o old as i <;> nofun
  grind

theorem mergeComparisons_formulas (has : ∀ a ∈ as, Formula A a) : mergeComparisons o as = .ok none := by
  have hop {p : Operator} {xs : List Expr} (h : Formula A (.op p xs)) : p ≠ .equal := by
    rintro rfl
    rcases h.operator hA with h | h | h | h <;> cases h
  unfold mergeComparisons
  split
  · next p x y q x' y' =>
    have hp : p ≠ .equal := hop (has (.op p [x, y]) (by simp))
    have hq : q ≠ .equal := hop (has (.op q [x', y']) (by simp))
    simp [hp, hq]
  · rfl

theorem reduce_connective (ho : o = .and ∨ o = .or)
    (hold : operationWidth o old (widths old) = .ok 1) (hlen : 2 ≤ as.length) (has : ∀ a ∈ as, Formula A a) :
    ∃ red, reduce o 1 1 old as = .ok red ∧ red.Restates A (.op o as) := by
  obtain ⟨res, hres, hanswer⟩ : Answers (fun red => red.Restates A (.op o as)) (scan (connectiveRule o 1 old as) 0 as) := by
    refine scan_spec fun pre a later hsplit => ?_
    subst hsplit
    exact connectiveRule_formulas hA ho hold hlen has
  cases res with
  | some red =>
    exact ⟨red, reduce_of_some ((identityRule_connective ho).trans hres), hanswer red rfl⟩
  | none =>
    have hnumbers : as.filterMap value? = [] := by
      refine filterMap_eq_nil_iff.mpr fun a ha => ?_
      obtain ⟨pre, later, rfl⟩ := append_of_mem ha
      obtain ⟨j, hj⟩ := of_scan_eq_ok hres pre a later rfl
      have := isNumber_of_connectiveRule hA ho (has a ha) hj
      unfold isNumber at this
      cases hv : a.value? <;> simp_all
    obtain ⟨r, hr, hrestates⟩ := operation_formulas hA ho hlen has
    refine ⟨.done r, ?_, hrestates, nofun⟩
    refine reduce_of_fold ((identityRule_connective ho).trans hres) (mergeComparisons_formulas hA has) ?_
    rw [foldConstants_of_none (by rw [numbersOf, hnumbers]; rfl), hr]

theorem Becomes.formulas (ho : o = .and ∨ o = .or) (hold : ∀ a ∈ old, a.width = .ok 1)
    (hlen : 2 ≤ as.length) (h : Forall₂ (Becomes c n) old as) (has : ∀ a ∈ as, Formula A a)
    (hagain : ∀ q, q.weight < (Expr.op o as).weight → Formula A q → ∃ r, Becomes c n q r ∧ Restates A q r) :
    ∃ r, Becomes c (n + 1) (.op o old) r ∧ Restates A (.op o as) r := by
  have hne : old ≠ [] := by
    rintro rfl
    cases h
    cases hlen
  have hwold := operationWidth_connective ho hne hold
  have hwidth := (Formula.connective ho hlen has).width hA
  rw [width] at hwidth
  obtain ⟨red, hred, hresult, hlt⟩ := reduce_connective hA ho hwold hlen has
  cases red with
  | done r => exact ⟨r, .done hne h hwidth (by decide) hwold hred, hresult⟩
  | again q =>
    obtain ⟨r, hr, hrestates⟩ := hagain q (hlt rfl) hresult.formula
    exact ⟨r, .again hne h hwidth (by decide) hwold hred hr, hresult.trans hrestates⟩

end

theorem loads_of_restates (ho : o ≠ .plus) (h : Forall₂ (Restates A) as bs) : loads o bs ≤ loads o as := by
  induction h with
  | nil => exact Nat.le_refl _
  | cons ha _ ih =>
    rw [loads, loads, burden_of_ne ho, burden_of_ne ho]
    have := ha.weight_le
    omega

theorem Restates.connective (hA : Tests Γ c k A) (ho : o = .and ∨ o = .or) (hlen : 2 ≤ as.length)
    (has : ∀ a ∈ as, a.width = .ok 1) (h : Forall₂ (Restates A) as bs) : Restates A (.op o as) (.op o bs) := by
  have hne : as ≠ [] := by
    rintro rfl
    cases hlen
  have hbs : Formula A (.op o bs) :=
    .connective ho (h.length_eq ▸ hlen) (forall_of_forall₂ h fun a _ b hab => hab.formula)
  refine ⟨hbs, ?_, fun σ => ?_⟩
  · have := loads_of_restates (o := o) (by rcases ho with rfl | rfl <;> decide) h
    rw [weight, weight]
    omega
  · rw [value_connective σ ho (hbs.width hA), value_connective σ ho (operationWidth_connective ho hne has),
      map_eq_of_forall₂ h fun a _ b hab => hab.value_eq σ]

/-- **Evaluation of formulas.** A formula is evaluated to a formula of the same value. -/
theorem Formula.evaluates (hA : Tests Γ c k A) (hk : 0 < k) (n : Nat) (h : Formula A e) (hweight : e.weight ≤ n) :
    ∃ r, Becomes c (n + k) e r ∧ Restates A e r := by
  induction n generalizing e with
  | zero =>
    have := weight_pos e
    omega
  | succ n ih =>
    cases h with
    | known t =>
      refine ⟨ofBool t, ?_, .refl (.known t)⟩
      cases t <;> exact (Becomes.num _ _).mono (by omega)
    | test h => exact ⟨e, (hA.kept h).mono (by omega), .refl (.test h)⟩
    | @opposite a h =>
      have hnot : Becomes c (k + 1) (.op .not [a]) (.op .not [a]) := by
        obtain ⟨x, y, rfl⟩ := hA.compares h
        exact .not (hA.kept h) rfl rfl rfl rfl
      exact ⟨_, hnot.mono (by omega), .refl (.opposite h)⟩
    | @connective o as ho hlen has =>
      have hloads : (op o as).weight = 1 + loads o as := by rw [weight]
      have hoperand (a : Expr) (ha : a ∈ as) : ∃ r, Becomes c (n + k) a r ∧ Restates A a r := by
        have : a.weight ≤ loads o as := weight_le_of_mem ha
        exact ih (has a ha) (by omega)
      obtain ⟨bs, hbs⟩ := exists_forall₂ hoperand
      have hwidth (a : Expr) (ha : a ∈ as) : a.width = .ok 1 := (has a ha).width hA
      have hrestates : Restates A (.op o as) (.op o bs) := .connective hA ho hlen hwidth (hbs.imp fun _ _ h => h.2)
      obtain ⟨r, hr, hrestates'⟩ := Becomes.formulas hA ho hwidth (hbs.length_eq ▸ hlen) (hbs.imp fun _ _ h => h.1)
        (forall_of_forall₂ hbs fun a _ b hab => hab.2.formula) fun q hlt hq => by
          have := hrestates.weight_le
          exact ih hq (by omega)
      rw [show n + 1 + k = n + k + 1 by omega]
      exact ⟨r, hr, hrestates.trans hrestates'⟩

theorem Formula.exists_evaluate (hA : Tests Γ c k A) (hk : 0 < k) (hle : k ≤ 2000) (h : Formula A e) :
    ∃ r, e.evaluate c = .ok r ∧ Restates A e r := by
  obtain ⟨r, hr, hrestates⟩ := h.evaluates hA hk e.weight (Nat.le_refl _)
  refine ⟨r, ?_, hrestates⟩
  have hlt := weight_lt_size e
  have := hr (e.depth - (e.weight + k))
  rwa [Nat.sub_add_cancel (by unfold depth; omega)] at this

/-! ### Conditions of templates -/

/-- Evaluation makes of the condition `e`, in which parameters stand for operands, a formula that is
true on the machines that `p` tells. It goes to the depth `n`, and so does the evaluation of the
formula. -/
structure Forms (A : Expr → Prop) (c : Context) (k n : Nat) (e : Expr) (p : Machine → Bool) : Prop where
  width : e.width = .ok 1
  exists_formula : ∃ r, Becomes c n e r ∧ Formula A r ∧ r.weight + k ≤ n ∧ ∀ σ, value σ r = truthWord (p σ)

theorem Forms.mono {m : Nat} {p : Machine → Bool} (h : Forms A c k n e p) (hle : n ≤ m) : Forms A c k m e p := by
  obtain ⟨r, hr, hformula, hweight, hvalue⟩ := h.exists_formula
  exact ⟨h.width, r, hr.mono hle, hformula, Nat.le_trans hweight hle, hvalue⟩

def combine (o : Operator) (ts : List Bool) : Bool := if o = .and then ts.all id else ts.any id

theorem wrap_total_truthWord (ho : o = .and ∨ o = .or) (ts : List Bool) :
    wrap 1 (o.total (ts.map truthWord)) = truthWord (combine o ts) := by
  have htotal : o.total (ts.map truthWord) = truthWord (combine o ts) := by
    induction ts with
    | nil => rcases ho with rfl | rfl <;> rfl
    | cons t ts ih =>
      rw [map_cons, Operator.total_cons, ih]
      rcases ho with rfl | rfl <;> cases t
      · exact Int64.zero_and
      · exact Int64.neg_one_and
      · exact Int64.zero_or
      · exact Int64.neg_one_or
  rw [htotal]
  exact truthWord_fits _

theorem Forms.connective {ps : List (Machine → Bool)} (hA : Tests Γ c k A) (hk : 0 < k) (ho : o = .and ∨ o = .or)
    (hlen : 2 ≤ old.length) (h : Forall₂ (Forms A c k n) old ps) :
    Forms A c k (old.length * n + 2) (.op o old) fun σ => combine o (ps.map (· σ)) := by
  have hwidths : ∀ a ∈ old, a.width = .ok 1 := by
    clear hlen
    induction h with
    | nil => simp
    | cons h _ ih => exact forall_mem_cons.mpr ⟨h.width, ih⟩
  have hne : old ≠ [] := by
    rintro rfl
    cases hlen
  obtain ⟨as, has, hformulas, hload, hvalues⟩ : ∃ as, Forall₂ (Becomes c n) old as ∧ (∀ a ∈ as, Formula A a) ∧
      loads o as + as.length * k ≤ old.length * n ∧ ∀ σ, as.map (value σ) = (ps.map (· σ)).map truthWord := by
    have hplus : o ≠ .plus := by rcases ho with rfl | rfl <;> decide
    clear hlen hwidths hne
    induction h with
    | nil => exact ⟨[], .nil, by simp, by simp [loads], fun _ => rfl⟩
    | @cons e p old ps h _ ih =>
      obtain ⟨as, has, hformulas, hload, hvalues⟩ := ih
      obtain ⟨r, hr, hformula, hweight, hvalue⟩ := h.exists_formula
      refine ⟨r :: as, .cons hr has, forall_mem_cons.mpr ⟨hformula, hformulas⟩, ?_, fun σ => ?_⟩
      · rw [loads, burden_of_ne hplus, length_cons, length_cons, Nat.add_mul, Nat.add_mul]
        omega
      · rw [map_cons, map_cons, map_cons, hvalue, hvalues]
  have hlen' : 2 ≤ as.length := has.length_eq ▸ hlen
  have hk' : 2 * k ≤ as.length * k := Nat.mul_le_mul_right k hlen'
  have hn : n ≤ old.length * n := Nat.le_mul_of_pos_left n (by omega)
  have hweight : (op o as).weight = 1 + loads o as := by rw [weight]
  obtain ⟨r, hr, hrestates⟩ := Becomes.formulas hA ho hwidths hlen'
    (has.imp fun _ _ h => h.mono (m := old.length * n + 1) (by omega)) hformulas fun q hlt hq => by
      obtain ⟨r, hr, hrestates⟩ := hq.evaluates hA hk q.weight (Nat.le_refl _)
      exact ⟨r, hr.mono (by omega), hrestates⟩
  refine ⟨operationWidth_connective ho hne hwidths, r, hr, hrestates.formula, ?_, fun σ => ?_⟩
  · have := hrestates.weight_le
    omega
  · rw [hrestates.value_eq, value_connective σ ho ((Formula.connective ho hlen' hformulas).width hA), hvalues,
      wrap_total_truthWord ho]

section

variable {p q t : Machine → Bool} {d : Expr}

section

variable (hA : Tests Γ c k A) (hk : 0 < k) (ha : Forms A c k n a p) (hb : Forms A c k n b q)

include hA hk ha hb

theorem Forms.and : Forms A c k (2 * n + 2) (.op .and [a, b]) fun σ => p σ && q σ := by
  have h := Forms.connective hA hk (.inl rfl) (by simp) (.cons ha (.cons hb .nil))
  simpa [combine] using h

theorem Forms.or : Forms A c k (2 * n + 2) (.op .or [a, b]) fun σ => p σ || q σ := by
  have h := Forms.connective hA hk (.inr rfl) (by simp) (.cons ha (.cons hb .nil))
  simpa [combine] using h

theorem Forms.and₃
    (hd : Forms A c k n d t) : Forms A c k (3 * n + 2) (.op .and [a, b, d]) fun σ => p σ && (q σ && t σ) := by
  have h := Forms.connective hA hk (.inl rfl) (by simp) (.cons ha (.cons hb (.cons hd .nil)))
  simpa [combine] using h

end

end

/-! ### Widths -/

theorem Formula.exists_inferWidth {c' : Context} {k' : Nat} (hA : Tests Γ c k A) (hB : Tests Γ c' k' B)
    (htest : ∀ a, A a → ∃ b, a.inferWidth 1 = .ok b ∧ B b ∧ ∀ σ, value σ b = value σ a) (h : Formula A e) :
    ∃ r, e.inferWidth 1 = .ok r ∧ Formula B r ∧ ∀ σ, value σ r = value σ e := by
  induction h with
  | known t => exact ⟨ofBool t, by cases t <;> exact inferWidth_num _ 1, .known t, fun _ => rfl⟩
  | test h =>
    obtain ⟨b, hb, hB', hvalue⟩ := htest _ h
    exact ⟨b, hb, .test hB', hvalue⟩
  | @opposite a h =>
    obtain ⟨b, hb, hB', hvalue⟩ := htest _ h
    refine ⟨b.complement, inferWidth_not hb (hB.width hB'), ?_, fun σ => ?_⟩
    · obtain ⟨x, y, rfl⟩ := hB.compares hB'
      exact .opposite hB'
    · rw [(Formula.test hB').value_complement hB σ, hvalue,
        value_opposite σ (hA.width h) ((Formula.test h).fits hA σ)]
  | @connective o as ho hlen has ih =>
    obtain ⟨bs, hbs⟩ := exists_forall₂ ih
    have hformulas : ∀ b ∈ bs, Formula B b := forall_of_forall₂ hbs fun a _ b hab => hab.2.1
    have hlen' : 2 ≤ bs.length := hbs.length_eq ▸ hlen
    obtain ⟨r, hr, hrestates⟩ := operation_formulas hB ho hlen' hformulas
    refine ⟨r, ?_, hrestates.formula, fun σ => ?_⟩
    · rw [inferWidth_op (hbs.imp fun _ _ h => h.1) (by rcases ho with rfl | rfl <;> simp)]
      exact hr
    · rw [hrestates.value_eq, value_connective σ ho ((Formula.connective ho hlen' hformulas).width hB),
        value_connective σ ho ((Formula.connective ho hlen has).width hA),
        map_eq_of_forall₂ hbs fun a _ b hab => hab.2.2 σ]

/-! ### Simplification -/

theorem matchPattern_lessOrEqual (hb : ∀ xs, b ≠ .op .equal xs) :
    matchPattern Rule.lessOrEqual.pattern (.op .or (a :: b :: as)) [] = .ok none := by
  have hfirst : ∃ res, matchPattern (Rule.lt Rule.x Rule.y) a [] = .ok res := by
    cases a with
    | op p es =>
      change ∃ res, (if .less == p && 2 == es.length then matchPatterns [Rule.x, Rule.y] es [] else .ok none) = _
      split
      · next hsame =>
        match es with
        | [u, v] => exact ⟨_, rfl⟩
        | [] | [_] | _ :: _ :: _ :: _ => simp at hsame
      · exact ⟨none, rfl⟩
    | _ => exact ⟨none, rfl⟩
  have hsecond (bound : Bindings) : matchPattern (.op .equal [Rule.x, Rule.y]) b bound = .ok none :=
    matchPattern_other (by decide) hb
  change (if _ then matchPatterns [Rule.lt Rule.x Rule.y, .op .equal [Rule.x, Rule.y]] (a :: b :: as) [] else _) = _
  split
  · obtain ⟨res, hres⟩ := hfirst
    rw [matchPatterns, hres]
    cases res with
    | none => rfl
    | some bound =>
      change matchPatterns [.op .equal [Rule.x, Rule.y]] (b :: as) bound = _
      rw [matchPatterns, hsecond]
      rfl
  · rfl

/-- No rule of simplification is about formulas: none of their operands is an equation. -/
theorem Formula.plain (hA : Tests Γ c k A) (hplain : ∀ a, A a → Plain a) (h : Formula A e) : Plain e := by
  induction h with
  | known t => cases t <;> exact plain_num _ _
  | test h => exact hplain _ h
  | opposite h => exact plain_not (hplain _ h)
  | @connective o as ho hlen has ih =>
    refine plain_op ?_ ih
    rcases as with _ | ⟨a, _ | ⟨b, as⟩⟩
    · simp at hlen
    · simp at hlen
    have hother {e : Expr} (he : e ∈ a :: b :: as) (p : Operator) (hp : p ≠ .less ∧ p ≠ .not ∧ p ≠ .and ∧ p ≠ .or)
        (xs : List Expr) : e ≠ .op p xs := by
      rintro rfl
      rcases (has _ he).operator hA with h | h | h | h
      · exact hp.1 h
      · exact hp.2.1 h
      · exact hp.2.2.1 h
      · exact hp.2.2.2 h
    rcases ho with rfl | rfl
    · exact applyRules_inequalities (by simp) (fun _ => hother (by simp) .lessOrEqual (by decide)) (by simp)
    · refine applyRules_of_forall ?_
      simp only [Rule.inequalities, forall_mem_cons, not_mem_nil, false_implies, implies_true, and_true]
      refine ⟨matchPattern_lessOrEqual (hother (by simp) .equal (by decide)), ?_, ?_, ?_, ?_⟩
      all_goals exact matchPattern_first (by simp)

end Expr

end FlowRecovery
