import FlowRecovery.Proofs.Expr.Concrete
import FlowRecovery.Proofs.Expr.Conditions

/-!
# Operations on numbers and unspecified values

When the operands of an operation are looked up in a state that does not know all of them, they
become numbers and unspecified values (`Leaf`). Evaluation may still make a number of the operation:
a conjunction with zero is zero. Such a number is the value of the operation, whatever the
unspecified operands are (`exists_settled`).
-/

namespace FlowRecovery.Expr

open Word List

variable {o : Operator} {w : Int} {a x r : Expr} {xs pre later : List Expr} {us : List Int64}

/-- A number of `w` bits, or an unspecified one. -/
inductive Leaf (w : Int) : Expr → Prop where
  | num {v : Int64} (hv : Fits w v) : Leaf w (.num v w)
  | nondet : Leaf w (.nondet w)

def Allows (x : Expr) (v : Int64) : Prop := ∀ u, x.value? = some u → v = u

theorem allows_num (v : Int64) (w : Int) : Allows (.num v w) v := fun _ h => Option.some.inj h

theorem allows_nondet (w : Int) (v : Int64) : Allows (.nondet w) v := nofun

/-- If `r` is a number, it is what `o` makes of any words that the operands `xs` may stand for. -/
structure Settled (o : Operator) (w : Int) (xs : List Expr) (r : Expr) : Prop where
  width_eq : r.width = .ok w
  total_eq {v : Int64} {us : List Int64} (hr : r.value? = some v) (hus : List.Forall₂ Allows xs us) :
    wrap w (o.total us) = v

namespace Leaf

theorem width_eq (h : Leaf w x) : x.width = .ok w := by cases h <;> rfl

theorem hasWidth (h : Leaf w x) (hpos : 0 < w) (hle : w ≤ 64) :
    HasWidth (Context.empty.words fun _ => default) x w := by
  cases h with
  | num hv => exact .num ⟨hpos, hle⟩ hv
  | nondet => exact .nondet trivial ⟨hpos, hle⟩

theorem operandsOf_eq (h : Leaf w x) (o : Operator) : operandsOf o x = none := by cases h <;> rfl

theorem eq_of_equals (ha : Leaf w a) (h : x.equals a) : ∃ v, a = .num v w ∧ x = .num v w := by
  cases ha with
  | @num v =>
    cases x with
    | num v' w' =>
      obtain ⟨rfl, rfl⟩ : v' = v ∧ w' = w := by simpa [equals] using h
      exact ⟨v', rfl, rfl⟩
    | _ => simp [equals] at h
  | nondet => cases x <;> simp [equals] at h

theorem negationIn_eq (ha : Leaf w a) (hadm : Admissible w) (h : ∀ x ∈ later, Leaf w x) :
    negationIn a later = .ok false := by
  have hnot : not a = .ok (.op .not [a]) := by
    have happly : apply .not [a] = .ok (.op .not [a]) := by
      rw [apply]
      change (a.width >>= _) = _
      rw [ha.width_eq]
      exact if_pos (by simpa [Admissible] using hadm)
    cases ha <;> exact happly
  induction later with
  | nil => rfl
  | cons x later ih =>
    obtain ⟨hx, hlater⟩ := forall_mem_cons.mp h
    have hequals : x.equals (.op .not [a]) = false := by cases hx <;> rfl
    rw [negationIn, hnot]
    change (if x.equals (.op .not [a]) then _ else _) = _
    rw [hequals]
    exact ih hlater

end Leaf

section

variable (ho : o.isAssociative) (hpos : 0 < w) (hadm : Admissible w)

include ho hpos hadm

theorem operation_leaves (hne : xs ≠ []) (h : ∀ x ∈ xs, Leaf w x) : operation o xs = .ok (.op o xs) := by
  have hflatten : flatten o xs = xs := by
    clear hne
    induction xs with
    | nil => rfl
    | cons x xs ih =>
      obtain ⟨hx, hxs⟩ := forall_mem_cons.mp h
      rw [flatten_cons_of_none (hx.operandsOf_eq o), ih hxs]
  have happly : apply o xs = .ok (.op o xs) := by
    rw [apply, operationWidth_of_forall ho hpos hne fun x hx => (h x hx).width_eq]
    exact if_pos (by simpa [Admissible] using hadm)
  cases o with
  | plus | and | or =>
    change apply _ (flatten _ xs) = _
    rw [hflatten, happly]
  | _ => cases ho

theorem dropOperand_leaves (hlen : pre ++ later ≠ []) (h : ∀ x ∈ pre ++ a :: later, Leaf w x) :
    dropOperand o (pre ++ a :: later) (pre ++ a :: later) pre.length = .ok (joined o (pre ++ later)) := by
  have hrest (x : Expr) (hx : x ∈ pre ++ later) : Leaf w x := h x (by
    rcases mem_append.mp hx with hx | hx <;> simp [hx])
  have hwidth {ys : List Expr} (hne : ys ≠ []) (hys : ∀ y ∈ ys, Leaf w y) : operationWidth o ys (widths ys) = .ok w :=
    operationWidth_of_forall ho hpos hne fun y hy => (hys y hy).width_eq
  have htwo : 2 ≤ (pre ++ a :: later).length := by
    have := length_pos_iff.mpr hlen
    simp at this ⊢
    omega
  rw [dropOperand_eq (hwidth (by simp) h) htwo (by simp) fun _ => by rw [eraseIdx_middle]; exact hwidth hlen hrest,
    eraseIdx_middle]
  split
  · next htwo =>
    have hjoined : joined o (pre ++ later) = .op o (pre ++ later) := by
      match pre ++ later, htwo with
      | _ :: _ :: _, _ => rfl
    rw [hjoined, operation_leaves ho hpos hadm hlen hrest]
  · rfl

end

/-! ### One step -/

theorem total_apart (h : Forall₂ Allows (pre ++ a :: later) us) :
    ∃ v vs, Allows a v ∧ Forall₂ Allows (pre ++ later) vs ∧ o.total us = o.mix v (o.total vs) := by
  obtain ⟨z, hz, hperm⟩ := perm_comp_forall₂ perm_middle.symm h
  cases hz with
  | @cons _ v _ vs hv hvs => exact ⟨v, vs, hv, hvs, o.total_perm hperm.symm⟩

/-- What one step makes of an operation on leaves: its result, or an operation with one operand
less. -/
def Answered (o : Operator) (w : Int) (xs : List Expr) : Reduction → Prop
  | .done r => Settled o w xs r
  | .again q => ∃ ys, q = joined o ys ∧ ys ≠ [] ∧ ys.length < xs.length ∧ (∀ y ∈ ys, Leaf w y) ∧
      ∀ r, Settled o w ys r → Settled o w xs r

theorem exists_dropped (ho : o.isAssociative) (hpos : 0 < w) (hadm : Admissible w) (hlen : pre ++ later ≠ [])
    (h : ∀ x ∈ pre ++ a :: later, Leaf w x)
    (hdrop : ∀ v vs, Allows a v → Forall₂ Allows (pre ++ later) vs → o.mix v (o.total vs) = o.total vs) :
    ∃ q, dropOperand o (pre ++ a :: later) (pre ++ a :: later) pre.length = .ok q ∧
      Answered o w (pre ++ a :: later) (.again q) := by
  refine ⟨_, dropOperand_leaves ho hpos hadm hlen h, pre ++ later, rfl, hlen, by simp, fun y hy => h y ?_, fun r hr => ⟨hr.width_eq, fun hv hus => ?_⟩⟩
  · rcases mem_append.mp hy with hy | hy <;> simp [hy]
  · obtain ⟨v, vs, hv', hvs, htotal⟩ := total_apart hus
    rw [htotal, hdrop v vs hv' hvs]
    exact hr.total_eq hv hvs

theorem mix_of_repeated (ho : o = .and ∨ o = .or) (ha : Leaf w a) (hany : (later.any fun b => b.equals a))
    {v : Int64} {vs : List Int64} (hv : Allows a v) (hvs : Forall₂ Allows (pre ++ later) vs) :
    o.mix v (o.total vs) = o.total vs := by
  obtain ⟨x, hx, heq⟩ := any_eq_true.mp hany
  obtain ⟨u, rfl, rfl⟩ := ha.eq_of_equals heq
  obtain ⟨l, l', hsplit⟩ := append_of_mem (mem_append_right pre hx)
  rw [hsplit] at hvs
  obtain ⟨v', vs', hv', -, htotal⟩ := total_apart (o := o) hvs
  obtain rfl : v = u := hv u rfl
  obtain rfl : v' = v := hv' _ rfl
  have hmem : v' ∈ v' :: vs' := mem_cons_self
  rw [htotal]
  exact mix_total_of_mem ho hmem

theorem eq_of_isZero (h : a.isZero) : a.value? = some 0 := by simpa [isZero] using h

theorem eq_of_isAllOnes (h : a.isAllOnes) : a.value? = some (-1) := by simpa [isAllOnes] using h

theorem settled_number {t : Int64} (hwrap : wrap w t = settle w t)
    (h : ∀ us, Forall₂ Allows xs us → o.total us = t) : Settled o w xs (number t w) := by
  rw [number_eq]
  refine ⟨rfl, fun hr hus => ?_⟩
  cases hr
  rw [h _ hus, hwrap]

section

variable (hpos : 0 < w) (hadm : Admissible w) (hlen : pre ++ later ≠ []) (h : ∀ x ∈ pre ++ a :: later, Leaf w x)

include hpos hadm hlen h

theorem answers_connective (ho : o = .and ∨ o = .or) : Answers (Answered o w (pre ++ a :: later))
      (connectiveRule o w (pre ++ a :: later) (pre ++ a :: later) pre.length a later) := by
  have ha : Leaf w a := h a (by simp)
  have hassoc : o.isAssociative := by rcases ho with rfl | rfl <;> rfl
  refine connectiveRule_answers ho (fun hv => ?_)
    ⟨false, ha.negationIn_eq hadm fun x hx => h x (by simp [hx]), nofun⟩ fun hdrop => ?_
  · have hfits := wrap_absorbing ho hpos
    refine settled_number (hfits.trans (settle_of_fits hpos hfits).symm) fun us hus => ?_
    obtain ⟨v, vs, hv', -, htotal⟩ := total_apart (o := o) hus
    have hmem : ~~~o.unit ∈ ~~~o.unit :: vs := mem_cons_self
    rw [htotal, hv' _ hv]
    exact total_of_absorbing ho hmem
  · refine exists_dropped hassoc hpos hadm hlen h fun v vs hv' hvs => ?_
    rcases hdrop with hany | hv
    · exact mix_of_repeated ho ha hany hv' hvs
    · rw [hv' _ hv, Operator.unit_mix]

theorem answers_plus : Answers (Answered .plus w (pre ++ a :: later))
      (plusRule w (pre ++ a :: later) (pre ++ a :: later) pre.length a later) := by
  have ha : Leaf w a := h a (by simp)
  unfold plusRule
  split
  · next hzero =>
    obtain ⟨q, hq, hanswered⟩ := exists_dropped (o := .plus) rfl hpos hadm hlen h fun v vs hv _ => by
      rw [hv 0 (eq_of_isZero hzero)]
      exact Operator.unit_mix .plus _
    rw [hq]
    exact .some hanswered
  · cases ha <;> exact .none

end

theorem answers_identityRule (ho : o.isAssociative) (hpos : 0 < w) (hadm : Admissible w) (hlen : 2 ≤ xs.length)
    (h : ∀ x ∈ xs, Leaf w x) : Answers (Answered o w xs) (identityRule o w w xs xs) := by
  have hothers {pre later : List Expr} {a : Expr} (hsplit : xs = pre ++ a :: later) : pre ++ later ≠ [] := by
    intro hnil
    obtain ⟨rfl, rfl⟩ := append_eq_nil_iff.mp hnil
    subst hsplit
    simp at hlen
  cases o with
  | and | or =>
    refine scan_spec fun pre a later hsplit => ?_
    have hne := hothers hsplit
    subst hsplit
    exact answers_connective hpos hadm hne h (by simp)
  | plus =>
    refine scan_spec fun pre a later hsplit => ?_
    have hne := hothers hsplit
    subst hsplit
    exact answers_plus hpos hadm hne h
  | _ => cases ho

theorem eq_numbersOf (hothers : othersOf xs = []) (hus : Forall₂ Allows xs us) : us = numbersOf xs := by
  induction hus with
  | nil => rfl
  | @cons x v xs us hx _ ih =>
    cases hvalue : x.value? with
    | none => simp [othersOf_cons_of_none hvalue] at hothers
    | some u =>
      rw [othersOf_cons_of_some hvalue] at hothers
      rw [numbersOf_cons_of_some hvalue, hx u hvalue, ih hothers]

section

variable (ho : o.isAssociative) (hsum : o = .plus → 1 < w) (hpos : 0 < w) (hle : w ≤ 64)

include ho hsum hpos hle

theorem settle_total_numbersOf
    (h : ∀ x ∈ xs, Leaf w x) : settle w (o.total (numbersOf xs)) = wrap w (o.total (numbersOf xs)) := by
  have hfits (ho : o = .and ∨ o = .or) : Fits w (o.total (numbersOf xs)) :=
    fits_total_numbersOf ho hpos fun x hx => (h x hx).hasWidth hpos hle
  cases o with
  | plus => exact settle_eq_wrap (hsum rfl) _
  | and => rw [settle_of_fits hpos (hfits (.inl rfl)), hfits (.inl rfl)]
  | or => rw [settle_of_fits hpos (hfits (.inr rfl)), hfits (.inr rfl)]
  | _ => cases ho

theorem foldConstants_leaves (hadm : Admissible w) (hlen : 2 ≤ xs.length) (h : ∀ x ∈ xs, Leaf w x) :
    ∃ r, foldConstants o w xs = .ok r ∧ Settled o w xs r := by
  have hop {ys : List Expr} (hne : ys ≠ []) (hys : ∀ y ∈ ys, Leaf w y) :
      operation o ys = .ok (.op o ys) ∧ Settled o w xs (.op o ys) :=
    ⟨operation_leaves ho hpos hadm hne hys,
      operationWidth_of_forall ho hpos hne fun y hy => (hys y hy).width_eq, fun hr _ => nomatch hr⟩
  have hcompute := compute_regroup ho hlen (numbersOf xs)
  by_cases htwo : 2 ≤ (numbersOf xs).length
  · rw [if_pos htwo] at hcompute
    cases hothers : othersOf xs with
    | nil =>
      refine ⟨_, foldConstants_of_nil hcompute hothers, settled_number ?_ fun us hus => ?_⟩
      · exact (settle_total_numbersOf ho hsum hpos hle h).symm
      · rw [eq_numbersOf hothers hus]
    | cons y ys =>
      rw [foldConstants_of_cons hcompute hothers, number_eq]
      refine ⟨_, hop (by simp) fun z hz => ?_⟩
      rcases mem_append.mp hz with hz | hz
      · rw [← hothers] at hz
        exact h z (mem_of_mem_filter hz)
      · rw [mem_singleton.mp hz]
        exact .num (fits_settle hpos _)
  · rw [if_neg htwo] at hcompute
    rw [foldConstants_of_none hcompute]
    exact ⟨_, hop (by rintro rfl; cases hlen) h⟩

end

theorem mergeComparisons_leaves (h : ∀ x ∈ xs, Leaf w x) : mergeComparisons o xs = .ok none := by
  unfold mergeComparisons
  split
  · next hmem => exact nomatch h _ mem_cons_self
  · rfl

section

variable (ho : o.isAssociative) (hsum : o = .plus → 1 < w) (hpos : 0 < w) (hle : w ≤ 64) (hadm : Admissible w)

include ho hsum hpos hle hadm

/-- **Operations on leaves.** If evaluation gives a number, it is the one that the operands have in
common, whatever words the unspecified ones stand for. -/
theorem exists_settled (hne : xs ≠ []) (h : ∀ x ∈ xs, Leaf w x) :
    ∃ r, Becomes .empty xs.length (joined o xs) r ∧ Settled o w xs r := by
  induction hn : xs.length using Nat.strong_induction_on generalizing xs with
  | h n ih =>
    subst hn
    have hself {n : Nat} (x : Expr) (hx : x ∈ xs) : Becomes .empty (n + 1) x x := by
      cases h x hx <;> exact fun _ => rfl
    match xs, hne with
    | [x], _ =>
      have hx := h x mem_cons_self
      refine ⟨x, hself x mem_cons_self, hx.width_eq, fun {v us} hr hus => ?_⟩
      obtain ⟨u, rfl, hu⟩ : ∃ u, us = [u] ∧ Allows x u := by
        cases hus with
        | cons hu hnil => cases hnil; exact ⟨_, rfl, hu⟩
      rw [Operator.total_singleton, hu v hr]
      cases hx with
      | num hv => exact Option.some.inj hr ▸ hv
      | nondet => cases hr
    | x :: y :: zs, hne =>
      have hlen : 2 ≤ (x :: y :: zs).length := by simp
      have hwidth := operationWidth_of_forall ho hpos hne fun x hx => (h x hx).width_eq
      have hoperands : Forall₂ (Becomes .empty (zs.length + 1)) (x :: y :: zs) (x :: y :: zs) :=
        forall₂_same.mpr fun x hx => hself x hx
      obtain ⟨res, hres, hanswer⟩ := answers_identityRule ho hpos hadm hlen h
      cases res with
      | none =>
        obtain ⟨r, hr, hsettled⟩ := foldConstants_leaves ho hsum hpos hle hadm hlen h
        refine ⟨r, .done hne hoperands hwidth hpos.ne' hwidth ?_, hsettled⟩
        simp only [reduce, hres, mergeComparisons_leaves h, hr, ok_bind, pure, Except.pure]
      | some red =>
        have hred := reduce_of_some hres
        cases red with
        | done r => exact ⟨r, .done hne hoperands hwidth hpos.ne' hwidth hred, hanswer _ rfl⟩
        | again q =>
          obtain ⟨ys, rfl, hys, hlt, hleaves, hback⟩ := hanswer _ rfl
          obtain ⟨r, hr, hsettled⟩ := ih ys.length hlt hys hleaves rfl
          refine ⟨r, .again hne hoperands hwidth hpos.ne' hwidth hred (hr.mono ?_), hback r hsettled⟩
          exact Nat.le_of_lt_succ hlt

theorem exists_evaluate_leaves (hlen : 2 ≤ xs.length) (h : ∀ x ∈ xs, Leaf w x) :
    ∃ r, (operation o xs >>= fun e => e.evaluate .empty) = .ok r ∧ Settled o w xs r := by
  have hne : xs ≠ [] := by
    rintro rfl
    cases hlen
  have hjoined : joined o xs = .op o xs := by
    match xs, hlen with
    | _ :: _ :: _, _ => rfl
  have hsize : xs.length ≤ sizes xs := by
    clear hne hlen hjoined
    induction xs with
    | nil => exact Nat.le_refl 0
    | cons x xs ih =>
      obtain ⟨hx, hxs⟩ := forall_mem_cons.mp h
      have hone : x.size = 1 := by cases hx <;> rfl
      rw [sizes, hone, length_cons, Nat.add_comm]
      exact Nat.add_le_add_left (ih hxs) 1
  obtain ⟨r, hr, hsettled⟩ := exists_settled ho hsum hpos hle hadm hne h
  rw [hjoined] at hr
  refine ⟨r, ?_, hsettled⟩
  rw [operation_leaves ho hpos hadm hne h]
  have hdepth : xs.length ≤ (op o xs).depth := by
    rw [depth, size]
    omega
  have := hr ((op o xs).depth - xs.length)
  rwa [Nat.sub_add_cancel hdepth] at this

end

end FlowRecovery.Expr
