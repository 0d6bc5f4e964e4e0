import FlowRecovery.Expr.Simplification
import FlowRecovery.Expr.Typing
import FlowRecovery.Proofs.Expr.BitVectors

/-!
# How conditions are evaluated

What evaluation makes of comparisons, sums and negations, in any context (`Becomes`). The widths of
numbers need not be known yet, so this is also how the bodies of templates are evaluated before they
get widths. What the flags of a register file tell about a condition is said by `Tells`.
-/

namespace FlowRecovery

namespace Expr

open List

variable {c : Context} {n m : Nat} {o : Operator} {a b e r : Expr} {as bs old : List Expr} {w w' : Int}
  {bound : Bindings} {v u : Int64}

/-! ### Operands that get a width -/

theorem inferWidth_eq_ok : e.inferWidth w = .ok r ↔ ∃ res, retype e w = .ok res ∧ res.getD e = r := by
  unfold inferWidth
  cases retype e w with
  | error f => exact ⟨nofun, nofun⟩
  | ok res => exact ⟨fun h => ⟨res, rfl, Except.ok.inj h⟩, fun ⟨_, h, hr⟩ => Except.ok.inj h ▸ congrArg Except.ok hr⟩

theorem inferWidth_var (x : Var) : (Expr.var x).inferWidth x.width = .ok (.var x) :=
  inferWidth_eq_ok.mpr ⟨none, if_pos (beq_self_eq_true _), rfl⟩

theorem inferWidth_num (v : Int64) (w : Int) : (Expr.num v w).inferWidth w = .ok (.num v w) :=
  inferWidth_eq_ok.mpr ⟨none, if_pos (beq_self_eq_true _), rfl⟩

theorem inferWidth_mem {t : Option Expr} {k : Int} (ha : a.inferWidth addressWidth = .ok a)
    (hm : memory w a t 0 = .ok (.mem w a t k)) : (Expr.mem w a t k).inferWidth w = .ok (.mem w a t k) := by
  obtain ⟨res, hres, hr⟩ := inferWidth_eq_ok.mp ha
  rw [inferWidth, retype, if_neg (by simp), hres]
  cases res with
  | none => rfl
  | some a' =>
    obtain rfl : a' = a := hr
    change (some <$> memory w a' t 0 >>= _) = _
    rw [hm]
    rfl

section

variable (h : Forall₂ (fun a a' => a.inferWidth w = .ok a') as bs)

include h

theorem retypeAll_of_forall₂ : retypeAll as w = .ok bs := by
  induction h with
  | nil => rfl
  | @cons a a' as bs ha _ ih =>
    change (retype a w >>= fun r => retypeAll as w >>= fun rs => .ok (r.getD a :: rs)) = _
    obtain ⟨r, hr, rfl⟩ := inferWidth_eq_ok.mp ha
    rw [ih, hr]
    rfl

theorem inferWidth_of_retype (hop : retype (.op o as) w' = some <$> (retypeAll as w >>= operation o)) :
    (Expr.op o as).inferWidth w' = operation o bs := by
  rw [inferWidth, hop, retypeAll_of_forall₂ h]
  change (some <$> operation o bs >>= fun r => .ok (r.getD (.op o as))) = _
  cases operation o bs <;> rfl

theorem inferWidth_op (ho : o ∈ [Operator.plus, .and, .or, .neg, .not]) :
    (Expr.op o as).inferWidth w = operation o bs := by
  refine inferWidth_of_retype h ?_
  fin_cases ho <;> rfl

end

theorem inferWidth_zero (hw : 0 < w) : (Expr.num 0 unknownWidth).inferWidth w = .ok (.num 0 w) := by
  have hne : ¬(unknownWidth == w) := by
    rw [beq_iff_eq, unknownWidth]
    omega
  have hnumber : number 0 w = .num 0 w := by
    rw [number_eq, Word.settle_of_fits hw (Word.wrap_zero w)]
  exact inferWidth_eq_ok.mpr ⟨some (number 0 w), if_neg hne, hnumber⟩

/-! ### Evaluation of an operation -/

/-- Evaluation in the context `c` makes `r` of `e`, as soon as it may go to the depth `n`. -/
def Becomes (c : Context) (n : Nat) (e r : Expr) : Prop := ∀ d, evaluateTo c (d + n) e = .ok r

namespace Becomes

theorem mono (h : Becomes c n e r) (hle : n ≤ m) : Becomes c m e r := fun d => by
  have := h (d + (m - n))
  rwa [Nat.add_assoc, Nat.sub_add_cancel hle] at this

theorem evaluate (h : Becomes c n e r) (hle : n ≤ 2000) : e.evaluate c = .ok r := by
  have := h (16 * e.size + (2000 - n))
  rwa [Nat.add_assoc, Nat.sub_add_cancel hle] at this

theorem num (v : Int64) (w : Int) : Becomes c 1 (.num v w) (.num v w) := fun _ => rfl

theorem var (x : Var) : Becomes c 1 (.var x) (c.valueOf x) := fun _ => rfl

theorem mapM_eq (h : Forall₂ (Becomes c n) old as) (d : Nat) : old.mapM (evaluateTo c (d + n)) = .ok as := by
  induction h with
  | nil => rfl
  | cons ha _ ih =>
    rw [mapM_cons, ha d, ih]
    rfl

section

variable (hne : old ≠ []) (h : Forall₂ (Becomes c n) old as) (hw' : operationWidth o as (widths as) = .ok w')
  (hzero : w' ≠ 0) (hw : operationWidth o old (widths old) = .ok w)

include hne h hw' hzero hw

theorem evaluateTo_eq {red : Reduction} (hred : reduce o w w' old as = .ok red) (d : Nat) :
    evaluateTo c (d + (n + 1)) (.op o old) = match red with
      | .done r => .ok r
      | .again q => evaluateTo c (d + n) q := by
  have hempty : old.isEmpty = false := by simpa using hne
  change evaluateTo c (d + n + 1) _ = _
  simp only [evaluateTo, hempty, mapM_eq h d, hw', hw, hred, beq_eq_false_iff_ne.mpr hzero, ok_bind,
    Bool.false_eq_true, if_false]
  cases red <;> rfl

theorem done (hred : reduce o w w' old as = .ok (.done r)) : Becomes c (n + 1) (.op o old) r :=
  evaluateTo_eq hne h hw' hzero hw hred

theorem again {q : Expr} (hred : reduce o w w' old as = .ok (.again q)) (hq : Becomes c n q r) :
    Becomes c (n + 1) (.op o old) r :=
  fun d => (evaluateTo_eq hne h hw' hzero hw hred d).trans (hq d)

/-- Where no rule applies and nothing can be computed, the operation is built again. -/
theorem kept (hrule : identityRule o w w' old as = .ok none) (hmerge : mergeComparisons o as = .ok none)
    (hcompute : compute o as.length (numbersOf as) = none) (hop : operation o as = .ok r) :
    Becomes c (n + 1) (.op o old) r :=
  .done hne h hw' hzero hw (reduce_of_fold hrule hmerge ((foldConstants_of_none hcompute).trans hop))

end

end Becomes

/-! ### Comparisons -/

theorem compute_pair (o : Operator) (h : e.isNumber = false ∨ r.isNumber = false) :
    compute o 2 (numbersOf [e, r]) = none := by
  unfold isNumber at h
  cases he : e.value? <;> cases hr : r.value? <;> simp_all [compute, numbersOf]

theorem compute_single (o : Operator) (h : e.isNumber = false) : compute o 1 (numbersOf [e]) = none := by
  unfold isNumber at h
  cases he : e.value? <;> simp_all [compute, numbersOf]

theorem Becomes.less (ho : o = .less ∨ o = .unsignedLess) (ha : Becomes c n a e) (hb : Becomes c n b r)
    (hnum : e.isNumber = false ∨ r.isNumber = false) : Becomes c (n + 1) (.op o [a, b]) (.op o [e, r]) := by
  have hwidth (as : List Expr) : operationWidth o as (widths as) = .ok 1 := by rcases ho with rfl | rfl <;> rfl
  refine .kept (by simp) (.cons ha (.cons hb .nil)) (hwidth _) (by decide) (hwidth _) ?_ ?_ (compute_pair o hnum) ?_
  all_goals rcases ho with rfl | rfl <;> rfl

theorem Becomes.less_numbers (ha : Becomes c n a (.num u w)) (hb : Becomes c n b (.num v w')) :
    Becomes c (n + 1) (.op .less [a, b]) (ofBool (decide (u < v))) := by
  refine .done (by simp) (.cons ha (.cons hb .nil)) rfl (by decide) rfl ?_
  by_cases h : u < v <;> simp [reduce, identityRule, mergeComparisons, foldConstants, compute, computeMany, value?,
    isNumber, number, truthWord, h, ok_bind]

theorem equals_num_of_isNumber (v : Int64) (w : Int) (h : e.isNumber = false) : (Expr.num v w).equals e = false := by
  cases e with
  | num => simp [isNumber, value?] at h
  | _ => rfl

theorem Becomes.equal (ha : Becomes c n a e) (hb : Becomes c n b r) (hnum : e.isNumber = false)
    (hne : e.equals r = false) (htt : tt.equals r = false) (hff : ff.equals r = false) :
    Becomes c (n + 1) (.op .equal [a, b]) (.op .equal [e, r]) := by
  have htt' : tt.equals e = false := equals_num_of_isNumber _ _ hnum
  have hff' : ff.equals e = false := equals_num_of_isNumber _ _ hnum
  refine .kept (by simp) (.cons ha (.cons hb .nil)) rfl (by decide) rfl ?_ rfl (compute_pair .equal (.inl hnum)) rfl
  simp only [identityRule, equalRule, hne, htt, hff, htt', hff', Bool.false_eq_true, if_false]
  rfl

theorem Becomes.equal_self (ha : Becomes c n a e) (hb : Becomes c n b r) (heq : e.equals r) :
    Becomes c (n + 1) (.op .equal [a, b]) tt := by
  refine .done (by simp) (.cons ha (.cons hb .nil)) rfl (by decide) rfl ?_
  simp only [reduce, identityRule, equalRule, heq, if_true, ok_bind, pure, Except.pure]

/-! ### Differences -/

theorem isZero_of_isNumber (h : a.isNumber = false) : a.isZero = false := by
  unfold isNumber at h
  cases ha : a.value? <;> simp_all [isZero]

theorem operation_neg_of_flat (hwidth : e.width = .ok w) (hadm : Admissible w) (hneg : operandsOf .neg e = none)
    (hplus : operandsOf .plus e = none) : operation .neg [e] = .ok (.op .neg [e]) := by
  have happly : apply .neg [e] = .ok (.op .neg [e]) := by
    unfold apply
    rw [show operationWidth .neg [e] (widths [e]) = .ok w from hwidth]
    change (if w == 1 || w % 8 == 0 then _ else _) = _
    rw [if_pos (by simpa [Admissible] using hadm)]
    rfl
  cases e with
  | op o as =>
    have hne : o ≠ .neg ∧ o ≠ .plus := by simpa [operandsOf] using And.intro hneg hplus
    cases o with
    | neg => exact absurd rfl hne.1
    | plus => exact absurd rfl hne.2
    | _ => exact happly
  | _ => exact happly

theorem Becomes.neg (ha : Becomes c n a e) (hold : a.width = .ok w) (hwidth : e.width = .ok w') (hpos : w' ≠ 0)
    (hadm : Admissible w') (hnum : e.isNumber = false) (hneg : operandsOf .neg e = none)
    (hplus : operandsOf .plus e = none) : Becomes c (n + 1) (.op .neg [a]) (.op .neg [e]) :=
  .kept (by simp) (.cons ha .nil) hwidth hpos hold rfl rfl (compute_single .neg hnum)
    (operation_neg_of_flat hwidth hadm hneg hplus)

theorem Becomes.neg_number (ha : Becomes c n a (.num v w')) (hold : a.width = .ok w) (hpos : w' ≠ 0) :
    Becomes c (n + 1) (.op .neg [a]) (number (-v) w') := by
  refine .done (by simp) (.cons ha .nil) rfl hpos hold ?_
  simp [reduce, identityRule, mergeComparisons, foldConstants, compute, computeOne, value?, isNumber, ok_bind,
    pure, Except.pure]

theorem scan_eq_none {rule : Nat → Expr → List Expr → Faulty (Option Reduction)}
    (h : ∀ i, ∀ a ∈ as, ∀ later, rule i a later = .ok none) (i : Nat) : scan rule i as = .ok none := by
  induction as generalizing i with
  | nil => rfl
  | cons a as ih =>
    rw [scan, h i a mem_cons_self as]
    exact ih (fun i b hb => h i b (mem_cons_of_mem _ hb)) (i + 1)

/-- The sum of `w` bits has nothing that can be computed or left out. -/
structure Rigid (w : Int) (as : List Expr) : Prop where
  pos : 0 < w
  admissible : Admissible w
  two_le : 2 ≤ as.length
  width_eq : operationWidth .plus as (widths as) = .ok w
  isZero_eq : ∀ a ∈ as, a.isZero = false
  flat : ∀ a ∈ as, operandsOf .plus a = none
  numbers : (as.filterMap value?).length ≤ 1
  cancels : ∀ y ys, .op .neg (y :: ys) ∈ as → ∀ x ∈ as, y.equals x = false

theorem Rigid.operation_eq (h : Rigid w as) : operation .plus as = .ok (.op .plus as) := by
  have hflatten : flatten .plus as = as := by
    have hflat := h.flat
    clear h
    induction as with
    | nil => rfl
    | cons a as ih =>
      obtain ⟨ha, has⟩ := forall_mem_cons.mp hflat
      rw [flatten_cons_of_none ha, ih has]
  change apply .plus (flatten .plus as) = _
  rw [hflatten, apply, h.width_eq]
  change (if w == 1 || w % 8 == 0 then _ else _) = _
  rw [if_pos (by simpa [Admissible] using h.admissible)]
  rfl

theorem Becomes.sum (h : Forall₂ (Becomes c n) old as)
    (hold : operationWidth .plus old (widths old) = .ok w') (hrigid : Rigid w as) :
    Becomes c (n + 1) (.op .plus old) (.op .plus as) := by
  have hlen := hrigid.two_le
  have hne : old ≠ [] := by
    rintro rfl
    cases h
    cases hlen
  have hpos := hrigid.pos
  refine .kept hne h hrigid.width_eq (by omega) hold (scan_eq_none (fun i a ha later => ?_) 0) rfl ?_
    hrigid.operation_eq
  · simp only [plusRule, hrigid.isZero_eq a ha, Bool.false_eq_true, if_false]
    split
    · next y ys =>
      have hfind : as.findIdx? (fun x => y.equals x) = none :=
        findIdx?_eq_none_iff.mpr (hrigid.cancels y ys ha)
      rw [hfind]
      rfl
    · rfl
  · rw [compute_regroup rfl hlen]
    exact if_neg (Nat.not_le.mpr (Nat.lt_succ_of_le hrigid.numbers))

section

variable (hnum : e.isNumber = false) (hneg : operandsOf .neg e = none)

include hnum hneg

theorem plusRule_eq_none (i : Nat) (later : List Expr) : plusRule w old as i e later = .ok none := by
  simp only [plusRule, isZero_of_isNumber hnum, Bool.false_eq_true, if_false]
  split
  · cases hneg
  · rfl

variable (ha : Becomes c n a e) (hold : operationWidth .plus [a, b] (widths [a, b]) = .ok w') (hwidth : e.width = .ok w)
  (hpos : 0 < w)

include ha hold hwidth hpos

theorem Becomes.plus_neg_self (hb : Becomes c n b (.op .neg [e])) (hself : e.equals e) :
    Becomes c (n + 1) (.op .plus [a, b]) (number 0 w) := by
  refine .done (by simp) (.cons ha (.cons hb .nil)) (operationWidth_pair rfl hpos hwidth hwidth) (by omega) hold ?_
  have hsecond : plusRule w [a, b] [e, .op .neg [e]] 1 (.op .neg [e]) [] = .ok (some (.done (number 0 w))) := by
    have hzero : (op .neg [e]).isZero = false := rfl
    simp only [plusRule, hzero, findIdx?_cons, hself, Bool.false_eq_true, if_false, if_true]
    rfl
  simp only [reduce, identityRule, scan, plusRule_eq_none hnum hneg, hsecond, ok_bind]
  rfl

theorem Becomes.plus_zero (hb : Becomes c n b (.num 0 w)) (hagain : Becomes c n e r) :
    Becomes c (n + 1) (.op .plus [a, b]) r := by
  refine .again (by simp) (.cons ha (.cons hb .nil)) (operationWidth_pair rfl hpos hwidth rfl) (by omega) hold ?_ hagain
  simp only [reduce, identityRule, scan, plusRule_eq_none hnum hneg, ok_bind]
  rfl

end

theorem number_of_fits (hone : 1 < w) (hv : Word.Fits w v) : number v w = .num v w := by
  rw [number_eq, Word.settle_eq_wrap hone, hv]

theorem Becomes.plus_numbers (ha : Becomes c n a (.num u w)) (hb : Becomes c n b (.num v w))
    (hold : operationWidth .plus [a, b] (widths [a, b]) = .ok w') (hn : 0 < n) (hone : 1 < w) (hu : Word.Fits w u)
    (hv : Word.Fits w v) : Becomes c (n + 1) (.op .plus [a, b]) (number (u + v) w) := by
  have hwidth : operationWidth .plus [.num u w, .num v w] (widths [.num u w, .num v w]) = .ok w :=
    operationWidth_pair rfl (by omega) rfl rfl
  have hoperands : Forall₂ (Becomes c n) [a, b] [.num u w, .num v w] := .cons ha (.cons hb .nil)
  have hagain (k : Int64) (hk : Word.Fits w k) : Becomes c n (.num k w) (number k w) := by
    rw [number_of_fits hone hk]
    exact (Becomes.num k w).mono hn
  by_cases hu0 : u = 0
  · subst hu0
    rw [Int64.zero_add]
    exact .again (by simp) hoperands hwidth (by omega) hold rfl (hagain v hv)
  by_cases hv0 : v = 0
  · subst hv0
    rw [Int64.add_zero]
    refine .again (by simp) hoperands hwidth (by omega) hold ?_ (hagain u hu)
    simp [reduce, identityRule, scan, plusRule, isZero, value?, hu0, dropOperand, ok_bind, pure, Except.pure]
  refine .done (by simp) hoperands hwidth (by omega) hold ?_
  simp [reduce, identityRule, scan, plusRule, isZero, value?, hu0, hv0, mergeComparisons, foldConstants, compute,
    computeMany, isNumber, ok_bind, pure, Except.pure]

/-! ### Negations -/

def complement : Expr → Expr
  | .op .not (a :: _) => a
  | a => .op .not [a]

theorem not_eq_complement (ha : a.width = .ok 1) : not a = .ok a.complement := by
  have happly : apply .not [a] = .ok (.op .not [a]) := by
    simp only [apply, operationWidth, widths, ha]
    rfl
  cases a with
  | op o as =>
    by_cases ho : o = .not
    · subst ho
      cases as with
      | nil => exact happly
      | cons => rfl
    · cases o <;> first | exact happly | exact absurd rfl ho
  | _ => exact happly

theorem Becomes.not (ha : Becomes c n a e) (hold : a.width = .ok w) (hwidth : e.width = .ok 1)
    (hnum : e.isNumber = false) (hrule : notRule e = .ok none) : Becomes c (n + 1) (.op .not [a]) e.complement :=
  .kept (by simp) (.cons ha .nil) (show operationWidth .not [e] (widths [e]) = .ok 1 from hwidth) (by decide) hold hrule
    rfl (compute_single .not hnum) (not_eq_complement hwidth)

theorem Becomes.not_ofBool {t : Bool} (ha : Becomes c n a (ofBool t)) (hold : a.width = .ok w) :
    Becomes c (n + 1) (.op .not [a]) (ofBool !t) := by
  cases t <;> exact .done (by simp) (.cons ha .nil) rfl (by decide) hold rfl

/-! ### Conjunctions and disjunctions -/

theorem negationIn_eq (ha : a.width = .ok 1) (bs : List Expr) :
    negationIn a bs = .ok (bs.any fun b => b.equals a.complement) := by
  induction bs with
  | nil => rfl
  | cons b bs ih =>
    simp only [negationIn, not_eq_complement ha, ih, ok_bind, any_cons]
    cases b.equals a.complement <;> rfl

theorem operationWidth_connective (ho : o = .and ∨ o = .or) (hne : as ≠ []) (h : ∀ a ∈ as, a.width = .ok 1) :
    operationWidth o as (widths as) = .ok 1 :=
  operationWidth_of_forall (by rcases ho with rfl | rfl <;> rfl) (by decide) hne h

/-! ### Conditions that get a width -/

theorem inferWidth_compare (ho : o.isComparison) (hw : firstKnown unknownWidth (widths as) = .ok w)
    (hpos : 0 < w) (h : Forall₂ (fun a a' => a.inferWidth w = .ok a') as bs) :
    (Expr.op o as).inferWidth 1 = .ok (.op o bs) := by
  have hop : retype (.op o as) 1 = some <$> (retypeAll as w >>= operation o) := by
    cases o with
    | equal | less | lessOrEqual | unsignedLess | unsignedLessOrEqual =>
      change (firstKnown unknownWidth (widths as) >>= fun _ => _) = _
      rw [hw]
      exact if_neg (not_le.mpr hpos)
    | _ => cases ho
  rw [inferWidth_of_retype h hop]
  cases o <;> first | rfl | cases ho

theorem inferWidth_not (h : a.inferWidth 1 = .ok b) (hwidth : b.width = .ok 1) :
    (Expr.op .not [a]).inferWidth 1 = .ok b.complement := by
  rw [inferWidth_op (.cons h .nil) (by simp)]
  exact not_eq_complement hwidth

/-! ### Simplification -/

def Plain (e : Expr) : Prop := simplifyOnce Rule.inequalities e = .ok none

theorem Plain.simplify (h : Plain e) : e.simplify = .ok e := by
  unfold Plain at h
  unfold Expr.simplify
  rw [simplifyRounds, h]
  rfl

theorem plain_num (v : Int64) (w : Int) : Plain (.num v w) := by
  unfold Plain
  rw [simplifyOnce]
  all_goals simp

theorem plain_var (x : Var) : Plain (.var x) := by
  unfold Plain
  rw [simplifyOnce]
  all_goals simp

theorem plain_op (happly : applyRules Rule.inequalities (.op o as) = .ok none) (h : ∀ a ∈ as, Plain a) :
    Plain (.op o as) := by
  have hall : simplifyAll Rule.inequalities as = .ok (as, false) := by
    clear happly
    induction as with
    | nil => rw [simplifyAll]
    | cons a as ih =>
      obtain ⟨ha, has⟩ := forall_mem_cons.mp h
      unfold Plain at ha
      rw [simplifyAll, ha, ih has]
      rfl
  unfold Plain
  rw [simplifyOnce, happly]
  simp only [hall, ok_bind]
  rfl

theorem applyRules_of_forall {rules : List Rule} (h : ∀ r ∈ rules, matchPattern r.pattern e [] = .ok none) :
    applyRules rules e = .ok none := by
  induction rules with
  | nil => rfl
  | cons r rules ih =>
    obtain ⟨hr, hrules⟩ := forall_mem_cons.mp h
    rw [applyRules, hr]
    exact ih hrules

theorem matchPattern_other {ps : List Expr} (hneg : o ≠ .neg) (h : ∀ as, a ≠ .op o as) :
    matchPattern (.op o ps) a bound = .ok none := by
  cases a with
  | op o' as =>
    have hne : (o == o') = false := beq_eq_false_iff_ne.mpr fun heq => h as (by rw [heq])
    simp [matchPattern, hne]
  | _ => simp [matchPattern, hneg]

theorem matchPattern_first {o' : Operator} {p : Expr} {ps : List Expr}
    (h : o = o' → matchPattern p a bound = .ok none) :
    matchPattern (.op o (p :: ps)) (.op o' (a :: as)) bound = .ok none := by
  rw [matchPattern]
  split
  · next hsame =>
    simp only [Bool.and_eq_true, beq_iff_eq] at hsame
    rw [matchPatterns, h hsame.1]
    rfl
  · rfl

theorem applyRules_inequalities (hor : o = .or → ∀ bs, a ≠ .op .less bs)
    (hand : o = .and → ∀ bs, a ≠ .op .lessOrEqual bs) (heq : o = .equal → ∀ bs, a ≠ .op .less bs) :
    applyRules Rule.inequalities (.op o (a :: as)) = .ok none := by
  refine applyRules_of_forall ?_
  simp only [Rule.inequalities, forall_mem_cons, not_mem_nil, false_implies, implies_true, and_true]
  refine ⟨?_, ?_, ?_, ?_, ?_⟩
  · exact matchPattern_first fun ho => matchPattern_other (by decide) (hor ho.symm)
  · exact matchPattern_first fun ho => matchPattern_other (by decide) (hand ho.symm)
  · exact matchPattern_first fun ho => matchPattern_other (by decide) (hand ho.symm)
  · exact matchPattern_first fun ho => matchPattern_other (by decide) (heq ho.symm)
  · exact matchPattern_first fun ho => matchPattern_other (by decide) (heq ho.symm)

theorem plain_compare (ho : o = .less ∨ o = .unsignedLess) (ha : Plain a) (hb : Plain b) : Plain (.op o [a, b]) := by
  refine plain_op (applyRules_inequalities ?_ ?_ ?_) (by simp [ha, hb])
  all_goals
    rintro rfl
    rcases ho with ho | ho <;> cases ho

theorem plain_not (ha : Plain a) : Plain (.op .not [a]) :=
  plain_op (applyRules_inequalities nofun nofun nofun) (by simp [ha])

/-! ### Truth -/

section

variable {κ : Contents} {x y : Expr} {p q : Bool} {es : List Expr} {ps : List Bool}

def Tells (κ : Contents) (e : Expr) (p : Bool) : Prop := e.denote κ 1 = .ofBool p

theorem tells_compare (ho : o.isComparison) (hx : x.width = .ok n) :
    Tells κ (.op o [x, y]) (o.compareBits (x.denote κ n) (y.denote κ n)) := by
  have hwidth : x.widthOf.toNat = n := by
    unfold widthOf
    rw [hx, Int.toNat_natCast]
  subst hwidth
  cases o <;> first | exact BitVec.setWidth_eq _ | cases ho

theorem Tells.not (h : Tells κ e p) : Tells κ (.op .not [e]) !p := by
  change ~~~e.denote κ 1 = _
  rw [h]
  cases p <;> rfl

theorem Tells.xor (hx : Tells κ x p) (hy : Tells κ y q) : Tells κ (.op .xor [x, y]) (p ^^ q) := by
  change x.denote κ 1 ^^^ y.denote κ 1 = _
  rw [hx, hy, BitVec.ofBool_xor_ofBool]

theorem Tells.equal (hx : Tells κ x p) (hy : Tells κ y q) (hwidth : x.width = .ok 1) :
    Tells κ (.op .equal [x, y]) (p == q) := by
  have h := tells_compare (κ := κ) (o := .equal) (n := 1) (y := y) rfl hwidth
  have hbits : Operator.compareBits .equal (x.denote κ 1) (y.denote κ 1) = (p == q) := by
    rw [hx, hy]
    cases p <;> cases q <;> rfl
  rwa [hbits] at h

theorem Tells.and (h : Forall₂ (Tells κ) es ps) : Tells κ (.op .and es) (ps.all id) := by
  change ((denoteAll κ es).map (· 1)).foldr _ _ = _
  induction h with
  | nil => rfl
  | cons he _ ih =>
    rw [denoteAll, map_cons, foldr_cons, ih, he]
    exact BitVec.ofBool_and_ofBool

theorem Tells.or (h : Forall₂ (Tells κ) es ps) : Tells κ (.op .or es) (ps.any id) := by
  change ((denoteAll κ es).map (· 1)).foldr _ _ = _
  induction h with
  | nil => rfl
  | cons he _ ih =>
    rw [denoteAll, map_cons, foldr_cons, ih, he]
    exact BitVec.ofBool_or_ofBool

theorem Tells.iff {P : Prop} (h : Tells κ e p) (hp : p ↔ P) : e.denote κ 1 = 1#1 ↔ P := by
  rw [h, ← hp]
  cases p <;> decide

end

end Expr

end FlowRecovery
