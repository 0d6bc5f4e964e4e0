import FlowRecovery.Proofs.Expr.BitVectors

/-!
# Evaluation with known variables

If a context gives a number to every variable, a standard expression is evaluated to a number, and
no step is flawed: what may go wrong needs an operand that is no number, or a sum of truth values.
So the number is the one that the expression stands for as a bit vector (`evaluate_eq_denote`).
-/

namespace FlowRecovery

open List

/-- The vocabulary without variables, in which there are only the operations that are evaluated more
than once. -/
def Vocabulary.closed (Γ : Vocabulary) : Vocabulary :=
  { Γ with declared := fun _ => False, rich := False, memory := False, declared_inj := fun h => h.elim }

/-- The context gives a number to every variable, and there is no memory. -/
structure Context.Determines (Γ : Vocabulary) (c : Context) : Prop where
  valueOf {x : Var} (hx : Γ.declared x) : ∃ v, c.valueOf x = Expr.number v x.width
  memory : ¬Γ.memory

namespace Expr

variable {Γ : Vocabulary} {c : Context} {d : Nat} {o : Operator} {old as later : List Expr} {a b e r : Expr} {w : Int}

/-! ### Operations on numbers -/

variable {red : Reduction} {i : Nat} {v : Int64}

theorem again_ne_done {x : Faulty Expr} :
    (do return some (.again (← x)) : Faulty (Option Reduction)) ≠ .ok (some (.done r)) := by
  cases x <;> nofun

theorem not_of_isNumber (ha : a.isNumber) (h : not a = .ok r) : r = .op .not [a] := by
  cases a with
  | num v w => exact apply_eq_ok h
  | _ => cases ha

section

variable (ha : a.isNumber) (hlater : ∀ b ∈ later, b.isNumber)

include ha hlater

theorem negationIn_of_isNumber {found : Bool} (h : negationIn a later = .ok found) : found = false := by
  induction later with
  | nil => exact (Except.ok.inj h).symm
  | cons b later ih =>
    obtain ⟨hb, hrest⟩ := forall_mem_cons.mp hlater
    obtain ⟨r, hnot, h⟩ := of_bind_eq_ok h
    obtain rfl := not_of_isNumber ha hnot
    obtain ⟨v, u, rfl⟩ := exists_num_of_isNumber hb
    exact ih hrest h

theorem connectiveRule_of_isNumber (ho : o = .and ∨ o = .or)
    (h : connectiveRule o w old as i a later = .ok (some (.done r))) : r = number (~~~o.unit) w := by
  have hagain : (dropOperand o old as i).map (fun r => some (Reduction.again r)) ≠ .ok (some (.done r)) := by
    cases dropOperand o old as i <;> nofun
  rw [connectiveRule_eq ho] at h
  split at h
  · cases h
    rfl
  split at h
  · exact absurd h hagain
  obtain ⟨found, hfound, h⟩ := of_bind_eq_ok h
  obtain rfl := negationIn_of_isNumber ha hlater hfound
  change (if a.value? = some o.unit then _ else _) = _ at h
  split at h
  · exact absurd h hagain
  · cases h

end

theorem plusRule_ne_done (ha : a.isNumber) : plusRule w old as i a later ≠ .ok (some (.done r)) := by
  intro h
  unfold plusRule at h
  split at h
  · exact again_ne_done h
  · split at h
    · cases ha
    · cases h

theorem eitherOpposite_ne (hone : w ≠ 1) (hpos : 0 < w) (hadm : Admissible w) (hle : w ≤ 64) :
    eitherOpposite w ≠ number (-1) w := by
  have hbytes : w = 8 ∨ w = 16 ∨ w = 24 ∨ w = 32 ∨ w = 40 ∨ w = 48 ∨ w = 56 ∨ w = 64 := by
    rcases hadm with h | h
    · exact absurd h hone
    · omega
  rw [eitherOpposite, number_eq, number_eq]
  intro h
  obtain ⟨h, -⟩ := Expr.num.inj h
  rcases hbytes with rfl | rfl | rfl | rfl | rfl | rfl | rfl | rfl <;> revert h <;> decide

theorem not_isFlawed_of_isNumber (hΓ : ∀ u, Γ.width u → u ≤ 64) (hsum : ∀ u, Γ.sum u → 1 < u)
    (h : HasWidth Γ (.op o as) w) (has : ∀ a ∈ as, a.isNumber) : ¬IsFlawed o w old as := by
  rintro (⟨rfl, hone, hrule⟩ | ⟨rfl, rfl, -⟩)
  · obtain ⟨-, -, hadm, -⟩ := h.regroup_inv rfl
    rw [identityRule_connective (.inr rfl)] at hrule
    obtain ⟨pre, a, later, rfl, j, hj⟩ := of_scan_eq_ok hrule
    refine eitherOpposite_ne hone h.width_pos hadm (hΓ w h.width_eq.2) ?_
    rw [connectiveRule_of_isNumber (has a (by simp)) (fun b hb => has b (by simp [hb])) (.inr rfl) hj,
      show ~~~Operator.or.unit = -1 by decide]
  · obtain ⟨hsum', -⟩ := h.regroup_inv rfl
    have := hsum 1 (hsum' rfl)
    omega

/-! ### Results of operations on numbers -/

theorem isNumber_number (v : Int64) (w : Int) : (number v w).isNumber := by
  rw [number_eq]
  rfl

section

variable (has : ∀ a ∈ as, a.isNumber)

include has

theorem othersOf_of_isNumber : othersOf as = [] := by
  rw [othersOf, filter_eq_nil_iff]
  intro a ha
  simp [has a ha]

theorem length_numbersOf : (numbersOf as).length = as.length := by
  induction as with
  | nil => rfl
  | cons a as ih =>
    obtain ⟨ha, hrest⟩ := forall_mem_cons.mp has
    obtain ⟨v, u, rfl⟩ := exists_num_of_isNumber ha
    rw [numbersOf_cons_of_some rfl, length_cons, length_cons, ih hrest]

theorem foldConstants_of_isNumber
    (h : compute o as.length (numbersOf as) = some v) : foldConstants o w as = .ok (number v w) :=
  foldConstants_of_nil h (othersOf_of_isNumber has)

theorem mergeComparisons_of_isNumber : mergeComparisons o as = .ok none := by
  unfold mergeComparisons
  split
  · next p a b q a' b' =>
    have := has (.op p [a, b]) (by simp)
    cases this
  · rfl

theorem reduce_of_none (hrule : identityRule o w w old as = .ok none)
    (h : compute o as.length (numbersOf as) = some v) : reduce o w w old as = .ok (.done (number v w)) :=
  reduce_of_fold hrule (mergeComparisons_of_isNumber has) (foldConstants_of_isNumber has h)

end

theorem isNumber_of_scan (ho : o.isAssociative) (has : ∀ a ∈ as, a.isNumber)
    (h : identityRule o w w old as = .ok (some (.done r))) : r.isNumber := by
  have hconnective (ho : o = .and ∨ o = .or) : r.isNumber := by
    rw [identityRule_connective ho] at h
    obtain ⟨pre, a, later, rfl, j, hj⟩ := of_scan_eq_ok h
    rw [connectiveRule_of_isNumber (has a (by simp)) (fun b hb => has b (by simp [hb])) ho hj]
    exact isNumber_number _ _
  cases o with
  | and => exact hconnective (.inl rfl)
  | or => exact hconnective (.inr rfl)
  | plus =>
    obtain ⟨pre, a, later, rfl, j, hj⟩ := of_scan_eq_ok h
    exact absurd hj (plusRule_ne_done (has a (by simp)))
  | _ => cases ho

/-- With numbers for operands, an operation becomes a number, or an expression that is standard
again. -/
def Reduction.IsConcrete (Γ : Vocabulary) (w : Int) : Reduction → Prop
  | .done r => r.isNumber = true
  | .again r => Standard Γ r w

theorem standard_of_closed (h : HasWidth Γ.closed e w) : Standard Γ e w :=
  standard_of_hasWidth (show ¬Γ.closed.rich from id) id (fun _ h => h.elim) (fun _ h => h) (fun _ h => h) h

theorem closed_of_isNumber (h : HasWidth Γ a w) (ha : a.isNumber) : HasWidth Γ.closed a w := by
  obtain ⟨v, u, rfl⟩ := exists_num_of_isNumber ha
  cases h with
  | num hw hv => exact .num hw hv

theorem standard_of_isNumber (h : HasWidth Γ a w) (ha : a.isNumber) : Standard Γ a w :=
  standard_of_closed (closed_of_isNumber h ha)

theorem isConcrete_of_rules (has : ∀ a ∈ as, a.isNumber) (hcompute : compute o as.length (numbersOf as) = some v)
    (hanswer : ∀ red, identityRule o w w old as = .ok (some red) → red.IsConcrete Γ w)
    (hred : reduce o w w old as = .ok red) : red.IsConcrete Γ w := by
  cases hrule : identityRule o w w old as with
  | error f =>
    rw [reduce, hrule] at hred
    cases hred
  | ok res =>
    cases res with
    | some red' =>
      obtain rfl := Except.ok.inj ((reduce_of_some hrule).symm.trans hred)
      exact hanswer red' hrule
    | none =>
      cases (reduce_of_none has hrule hcompute).symm.trans hred
      exact isNumber_number _ _

theorem isConcrete_of_closed (hold : (Expr.op o old).width = .ok w) (h : HasWidth Γ.closed (.op o as) w)
    (hdone : ∀ r, identityRule o w w old as = .ok (some (.done r)) → r.isNumber) (red : Reduction)
    (hrule : identityRule o w w old as = .ok (some red)) : red.IsConcrete Γ w := by
  cases red with
  | done r => exact hdone r hrule
  | again r =>
    obtain ⟨red, hred, hshrinks, -⟩ := reduce_spec hold h
    cases (reduce_of_some hrule).symm.trans hred
    exact standard_of_closed hshrinks.hasWidth

theorem isNumber_of_xorRule (ha : a.isNumber) (hb : b.isNumber)
    (h : xorRule w a b = .ok (some (.done r))) : r.isNumber := by
  unfold xorRule at h
  split_ifs at h
  · cases h
    exact isNumber_number _ _
  · cases h
    exact hb
  · cases h
    exact ha
  · exact absurd h again_ne_done
  · exact absurd h again_ne_done
  · cases h

theorem isNumber_of_equalRule (ha : a.isNumber) (hb : b.isNumber)
    (h : equalRule a b = .ok (some (.done r))) : r.isNumber := by
  unfold equalRule at h
  split_ifs at h
  · cases h
    exact rfl
  · cases h
    exact hb
  · cases h
    exact ha
  · exact absurd h again_ne_done
  · exact absurd h again_ne_done
  · cases h

theorem isConcrete_of_reduce (hold : (Expr.op o old).width = .ok w) (h : Standard Γ (.op o as) w)
    (hΓ : ∀ u, Γ.width u → u ≤ 64) (has : ∀ a ∈ as, a.isNumber)
    (hred : reduce o w w old as = .ok red) : red.IsConcrete Γ w := by
  have hnumber {a : Expr} {u : Int} (ha : Standard Γ a u) (hn : a.isNumber) : HasWidth Γ.closed a u :=
    closed_of_isNumber (ha.hasWidth hΓ) hn
  have hnum (a : Expr) (ha : a ∈ as) := exists_num_of_isNumber (has a ha)
  cases h with
  | regroup ho hsum hlen hadm hall =>
    have hclosed : HasWidth Γ.closed (.op o as) w :=
      .regroup ho hsum hlen hadm fun a ha => hnumber (hall a ha) (has a ha)
    refine isConcrete_of_rules has (v := o.total (numbersOf as)) ?_
      (isConcrete_of_closed hold hclosed fun r => isNumber_of_scan ho has) hred
    rw [compute_regroup ho hlen, if_pos (by rw [length_numbersOf has]; exact hlen)]
  | @not a _ hadm ha =>
    obtain ⟨v, u, rfl⟩ := hnum a (by simp)
    exact isConcrete_of_rules has (v := ~~~v) rfl (fun red h => by cases h) hred
  | @neg a _ hsum hadm ha =>
    obtain ⟨v, u, rfl⟩ := hnum a (by simp)
    exact isConcrete_of_rules has (v := -v) rfl (fun red h => by cases h) hred
  | @xor a b _ hadm ha hb =>
    obtain ⟨v, u, rfl⟩ := hnum a (by simp)
    obtain ⟨v', u', rfl⟩ := hnum b (by simp)
    have hclosed : HasWidth Γ.closed (.op .xor [.num v u, .num v' u']) w := .xor hadm (hnumber ha rfl) (hnumber hb rfl)
    exact isConcrete_of_rules has (v := v ^^^ v') rfl
      (isConcrete_of_closed hold hclosed fun r h => isNumber_of_xorRule rfl rfl h) hred
  | @compare _ a b _ ho ha hb =>
    obtain ⟨v, u, rfl⟩ := hnum a (by simp)
    obtain ⟨v', u', rfl⟩ := hnum b (by simp)
    have hclosed : HasWidth Γ.closed (.op o [.num v u, .num v' u']) 1 := .compare ho (hnumber ha rfl) (hnumber hb rfl)
    obtain ⟨t, ht⟩ : ∃ t, computeMany o v v' [v, v'] = some t := by
      cases o <;> first | exact ⟨_, rfl⟩ | cases ho
    refine isConcrete_of_rules has (v := t) ht (isConcrete_of_closed hold hclosed fun r h => ?_) hred
    cases o with
    | equal => exact isNumber_of_equalRule rfl rfl h
    | less | lessOrEqual | unsignedLess | unsignedLessOrEqual => cases h
    | _ => cases ho
  | @mul a b u hrich hadm hwidth ha hb =>
    obtain ⟨v, u, rfl⟩ := hnum a (by simp)
    obtain ⟨v', u', rfl⟩ := hnum b (by simp)
    refine isConcrete_of_rules has (v := 1 * v * v') rfl (fun red h => ?_) hred
    obtain ⟨pre, a, later, -, j, hj⟩ := of_scan_eq_ok h
    unfold mulRule at hj
    split at hj
    · cases hj
      exact isNumber_number _ _
    · cases hj
  | @shift _ a k _ wk hrich ho hone hadm ha hk hfits hpos hlt =>
    obtain ⟨v, u, rfl⟩ := hnum a (by simp)
    rcases ho with rfl | rfl
    · exact isConcrete_of_rules has (v := Word.shiftLeft v k.toInt) rfl (fun red h => by cases h) hred
    · exact isConcrete_of_rules has (v := Word.shiftRight v k.toInt) rfl (fun red h => by cases h) hred
  | @extend _ f l a wf wl u _ hrich ho hfirst hlast hw hlt hadm hwidth ha =>
    obtain ⟨v, u', rfl⟩ := hnum a (by simp)
    obtain ⟨v', hv'⟩ := extend_eq_number (o == .signExtend) (Word.low32 f) (Word.low32 l) v u'
    have hrule : identityRule o w w old [.num f wf, .num l wl, .num v u'] =
        .ok (some (.done (extend (o == .signExtend) (Word.low32 f) (Word.low32 l) v u'))) := by
      rcases ho with rfl | rfl <;> rfl
    cases (reduce_of_some hrule).symm.trans hred
    rw [Reduction.IsConcrete, hv']
    exact isNumber_number _ _

/-! ### Every evaluation -/

theorem Standard.operand (h : Standard Γ (.op o as) w) : ∀ a ∈ as, a.isNumber ∨ ∃ u, Standard Γ a u := by
  cases h with
  | regroup _ _ _ _ has => exact fun a ha => .inr ⟨w, has a ha⟩
  | not _ ha | neg _ _ ha => simpa using .inr ⟨_, ha⟩
  | xor _ ha hb | compare _ ha hb | mul _ _ _ ha hb => simpa using ⟨.inr ⟨_, ha⟩, .inr ⟨_, hb⟩⟩
  | shift _ _ _ _ ha | extend _ _ _ _ _ _ _ _ ha => simpa [isNumber, value?] using .inr ⟨_, ha⟩

theorem standard_evaluated (hΓ : ∀ u, Γ.width u → u ≤ 64) (hold : Standard Γ (.op o old) w)
    (h : Forall₂ (Outcome Γ c d) old as) (has : ∀ a ∈ as, a.isNumber) : Standard Γ (.op o as) w := by
  have hnumber {a b : Expr} {u : Int} (ha : Standard Γ a u) (hb : Outcome Γ c d a b) (hmem : b ∈ as) :
      Standard Γ b u := standard_of_isNumber (hb.hasWidth (ha.hasWidth hΓ)) (has b hmem)
  cases hold with
  | regroup ho hsum hlen hadm hall =>
    obtain ⟨-, hlen', -, htyped⟩ := (hasWidth_replaced (.regroup ho hsum hlen hadm fun a ha => (hall a ha).hasWidth hΓ)
      (forall₂_replaces h)).regroup_inv ho
    exact .regroup ho hsum hlen' hadm fun a ha => standard_of_isNumber (htyped a ha) (has a ha)
  | not hadm ha =>
    obtain ⟨a', rfl, ha'⟩ := forall₂_one_left h
    exact .not hadm (hnumber ha ha' (by simp))
  | neg hsum hadm ha =>
    obtain ⟨a', rfl, ha'⟩ := forall₂_one_left h
    exact .neg hsum hadm (hnumber ha ha' (by simp))
  | xor hadm ha hb =>
    obtain ⟨a', b', rfl, ha', hb'⟩ := forall₂_two_left h
    exact .xor hadm (hnumber ha ha' (by simp)) (hnumber hb hb' (by simp))
  | compare ho ha hb =>
    obtain ⟨a', b', rfl, ha', hb'⟩ := forall₂_two_left h
    exact .compare ho (hnumber ha ha' (by simp)) (hnumber hb hb' (by simp))
  | mul hrich hadm hwidth ha hb =>
    obtain ⟨a', b', rfl, ha', hb'⟩ := forall₂_two_left h
    exact .mul hrich hadm hwidth (hnumber ha ha' (by simp)) (hnumber hb hb' (by simp))
  | shift hrich ho hone hadm ha hk hfits hpos hlt =>
    obtain ⟨a', k', rfl, ha', hk'⟩ := forall₂_two_left h
    obtain rfl := hk'.eq_of_isNumber rfl
    exact .shift hrich ho hone hadm (hnumber ha ha' (by simp)) hk hfits hpos hlt
  | extend hrich ho hfirst hlast hw hlt hadm hwidth ha =>
    obtain ⟨f', l', a', rfl, hf', hl', ha'⟩ := forall₂_three_left h
    obtain rfl := hf'.eq_of_isNumber rfl
    obtain rfl := hl'.eq_of_isNumber rfl
    exact .extend hrich ho hfirst hlast hw hlt hadm hwidth (hnumber ha ha' (by simp))

theorem suits_of_determines (hc : c.Determines Γ) : c.Suits Γ where
  valueOf hx := .inr (hc.valueOf hx)
  assignment hmemory := absurd hmemory hc.memory

/-- Up to the depth, evaluation makes a number of the expression without a flawed step. -/
def IsConcrete (c : Context) (d : Nat) (e : Expr) : Prop :=
  Flawless c d e ∧ ∀ r, evaluateTo c d e = .ok r → r.isNumber = true

theorem isConcrete_of_isNumber (ha : a.isNumber) : IsConcrete c d a := by
  obtain ⟨v, u, rfl⟩ := exists_num_of_isNumber ha
  cases d with
  | zero => exact ⟨trivial, nofun⟩
  | succ d =>
    refine ⟨trivial, fun r hr => ?_⟩
    cases hr
    rfl

section Levels

variable (hΓ : ∀ u, Γ.width u → u ≤ 64) (hsum : ∀ u, Γ.sum u → 1 < u) (hc : c.Determines Γ)
  (ih : ∀ {e w}, Standard Γ e w → e.weight ≤ d → IsConcrete c d e)

include hΓ hsum hc ih

theorem isConcrete_op (hold : Standard Γ (.op o old) w) (hweight : (Expr.op o old).weight ≤ d + 1) :
    IsConcrete c (d + 1) (.op o old) := by
  have htyped := hold.hasWidth hΓ
  obtain ⟨as, red, hstep⟩ := exists_step (evaluates (suits_of_determines hc) d) htyped hweight
  have hoperand (a : Expr) (ha : a ∈ old) : IsConcrete c d a := by
    rcases hold.operand a ha with hn | ⟨u, hu⟩
    · exact isConcrete_of_isNumber hn
    · have := weight_le_of_mem (o := o) ha
      rw [weight] at hweight
      exact ih hu (by omega)
  have has : ∀ a ∈ as, a.isNumber :=
    forall_of_forall₂ hstep.operands fun a ha b hb => (hoperand a ha).2 b hb.ok
  have hconcrete := isConcrete_of_reduce htyped.width_eq.1 (standard_evaluated hΓ hold hstep.operands has) hΓ
    has hstep.reduce_eq
  refine ⟨⟨fun a ha => (hoperand a ha).1, fun as' has' => ?_⟩, fun r hr => ?_⟩
  · cases hstep.mapM_eq.symm.trans has'
    rw [htyped.widthOf_eq]
    refine ⟨not_isFlawed_of_isNumber hΓ hsum hstep.hasWidth has, fun r hr => ?_⟩
    cases hstep.reduce_eq.symm.trans hr
    exact (ih hconcrete (hstep.weight_le_of_again hweight)).1
  · rw [hstep.evaluateTo_eq] at hr
    cases red with
    | done r' =>
      cases hr
      exact hconcrete
    | again r' => exact (ih hconcrete (hstep.weight_le_of_again hweight)).2 r hr

theorem isConcrete_succ (h : Standard Γ e w) (hweight : e.weight ≤ d + 1) : IsConcrete c (d + 1) e := by
  have hsuits := suits_of_determines hc
  have hop := h
  cases h with
  | num => exact isConcrete_of_isNumber rfl
  | @var x hx hw =>
    obtain ⟨v, hv⟩ := hc.valueOf hx
    refine ⟨trivial, fun r hr => ?_⟩
    obtain rfl : c.valueOf x = r := Except.ok.inj hr
    rw [hv]
    exact isNumber_number _ _
  | @bits f l x wf wl _ _ _ _ _ _ _ _ _ hx =>
    rw [weight] at hweight
    have hposx := weight_pos x
    have hposf := weight_pos (.num f wf)
    obtain ⟨x', hx'⟩ := evaluates hsuits d (hx.hasWidth hΓ) (by omega)
    have hf' : Outcome Γ c d (.num f wf) (.num f wf) := outcome_number (by omega) rfl
    have hl' : Outcome Γ c d (.num l wl) (.num l wl) := outcome_number (by omega) rfl
    have hconcrete := ih hx (by omega)
    obtain ⟨v, wv, rfl⟩ := exists_num_of_isNumber (hconcrete.2 x' hx'.ok)
    refine ⟨hconcrete.1, fun r hr => ?_⟩
    simp only [evaluateTo, hx'.ok, hf'.ok, hl'.ok, ok_bind] at hr
    cases hr
    exact isNumber_number _ _
  | cond _ hb ht hf =>
    rw [weight] at hweight
    obtain ⟨b', hb'⟩ := evaluates hsuits d (hb.hasWidth hΓ) (by omega)
    have hconb := ih hb (by omega)
    have hcont := ih ht (by omega)
    have hconf := ih hf (by omega)
    refine ⟨⟨hconb.1, hcont.1, hconf.1⟩, fun r hr => ?_⟩
    simp only [evaluateTo, hb'.ok, ok_bind] at hr
    split at hr
    · exact hconf.2 r hr
    · split at hr
      · exact hcont.2 r hr
      · rw [if_pos (hconb.2 b' hb'.ok)] at hr
        cases hr
  | _ => exact isConcrete_op hΓ hsum hc ih hop hweight

end Levels

theorem isConcrete_of_standard (hΓ : ∀ u, Γ.width u → u ≤ 64) (hsum : ∀ u, Γ.sum u → 1 < u) (hc : c.Determines Γ)
    (d : Nat) : ∀ {e w}, Standard Γ e w → e.weight ≤ d → IsConcrete c d e := by
  induction d with
  | zero =>
    intro e w _ hweight
    exact absurd (weight_pos e) (Nat.not_lt.mpr hweight)
  | succ d ih =>
    intro e w h hweight
    exact isConcrete_succ hΓ hsum hc ih h hweight

end Expr

/-! ### Numbers and bit vectors -/

namespace Context

variable (c : Context) (table : Nat → Var)

/-- The variables of a table to which the context assigns numbers of their width, up to 64 bits.
Sums have more than one bit. -/
def words : Vocabulary where
  declared x := table x.index = x ∧ ∃ v, c.valueOf x = Expr.number v x.width
  width w := 0 < w ∧ w ≤ 64
  sum w := 1 < w
  rich := True
  memory := False
  declared_inj hx hy h := by rw [← hx.1, ← hy.1, h]
  width_one := Vocabulary.bounded_one
  width_pos := @Vocabulary.bounded_pos
  width_lt := @Vocabulary.bounded_lt

def contents : Contents := fun x => BitVec.ofInt _ ((c.valueOf x).value?.getD 0).toInt

theorem determines_words : c.Determines (c.words table) where
  valueOf hx := hx.2
  memory := id

theorem agrees_contents : (Expr.machine c.contents).Agrees (c.words table) c := by
  rintro x ⟨-, v, hv⟩ ⟨hpos, hle⟩
  rw [hv, Expr.value_number]
  refine (Expr.value_var_machine hle (Word.fits_settle hpos v) ?_).symm
  rw [contents, hv, Expr.value?_number, Option.getD_some]

end Context

theorem Expr.evaluate_of_standard {c : Context} {table : Nat → Var} {e : Expr} {w : Int}
    (h : Standard (c.words table) e w) : e.evaluate c = .ok (.num (Word.ofBits (e.denote c.contents w.toNat)) w) := by
  have hΓ (u : Int) (hu : (c.words table).width u) : u ≤ 64 := hu.2
  have hc := c.determines_words table
  obtain ⟨r, hr, htyped, hkeeps⟩ := evaluate_spec (suits_of_determines hc) (h.hasWidth hΓ)
  obtain ⟨hflawless, hnumber⟩ := isConcrete_of_standard hΓ (fun _ hu => hu) hc e.depth h (weight_le_depth e)
  obtain ⟨n, u, rfl⟩ := exists_num_of_isNumber (hnumber r hr)
  have hvalue := hkeeps _ (c.agrees_contents table) hflawless
  rw [value_eq_ofBits_denote hΓ c.contents h, value] at hvalue
  cases htyped
  rw [hr, hvalue]

/-- **Concrete evaluation.** If the context gives a number to each of its variables, a standard
expression is evaluated to a number, and this is the signed number of its bit vector. -/
theorem Expr.evaluate_eq_denote {c : Context} {table : Nat → Var} {e : Expr} {w : Int}
    (h : Expr.Standard (c.words table) e w) :
    ∃ n, e.evaluate c = .ok (.num n w) ∧ n.toInt = (e.denote c.contents w.toNat).toInt := by
  have hΓ (u : Int) (hu : (c.words table).width u) : u ≤ 64 := hu.2
  have hw := hΓ w (h.hasWidth hΓ).width_eq.2
  exact ⟨_, evaluate_of_standard h, Word.toInt_ofBits (by omega) _⟩

/-- A sum is cut to eight bits and then extended, because the variable is not below 100 without its
sign. -/
theorem Expr.evaluate_extended_sum :
    let al : Var := ⟨0, "al", 8⟩
    let c : Context := ⟨[], [(.var al, .num (-56) 8)]⟩
    let e : Expr := .cond (.op .unsignedLess [.var al, .num 100 8]) (.op .mul [.var al, .var al])
      (.op .signExtend [.num 8 8, .num 15 8, .op .plus [.var al, .op .shl [.var al, .num 3 8], .num 1 8]])
    ∃ n, e.evaluate c = .ok (.num n 16) ∧ n.toInt = (e.denote c.contents 16).toInt := by
  intro al c e
  have hwidth (u : Int) (hu : 0 < u ∧ u ≤ 64) : (c.words fun _ => al).width u := hu
  have hal : Standard (c.words fun _ => al) (.var al) 8 := .var ⟨rfl, -56, by cbv⟩ (hwidth 8 (by decide))
  have hnum (v : Int64) (hv : Word.Fits 8 v) : Standard (c.words fun _ => al) (.num v 8) 8 :=
    .num (hwidth 8 (by decide)) hv
  have hsum : Standard (c.words fun _ => al) (.op .plus [.var al, .op .shl [.var al, .num 3 8], .num 1 8]) 8 := by
    refine .regroup rfl (fun _ => show (1 : Int) < 8 by decide) (by decide) (.inr rfl) ?_
    simp only [forall_mem_cons, not_mem_nil, false_implies, implies_true, and_true]
    exact ⟨hal, .shift trivial (.inl rfl) (by decide) (.inr rfl) hal (hwidth 8 (by decide)) (by decide) (by decide)
      (by decide), hnum 1 (by decide)⟩
  have he : Standard (c.words fun _ => al) e 16 :=
    .cond trivial (.compare rfl hal (hnum 100 (by decide)))
      (.mul (w := 8) trivial (.inr rfl) (hwidth 16 (by decide)) hal hal)
      (.extend trivial (.inl rfl) (by decide) (by decide) (by decide) (by decide) (.inr rfl) (hwidth 16 (by decide))
        hsum)
  exact evaluate_eq_denote he

end FlowRecovery
