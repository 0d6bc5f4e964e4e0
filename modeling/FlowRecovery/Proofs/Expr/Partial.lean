import FlowRecovery.Proofs.Expr.Concrete

/-!
# Evaluation with unknown variables

A context may give numbers to some variables only. Then an expression of sums, comparisons and
bitwise operations is evaluated to an expression of the same width, and for all contents of
variables that extend the context both stand for the same bit vector, as long as no step is flawed.
The first flawed step always changes the bit vector (`evaluate_keeps_denote`).
-/

namespace FlowRecovery

open Word

/-- The variables of a table to which the context assigns nothing but numbers of their width, and
expressions of one, 8, 16 or 32 bits made of sums, comparisons and bitwise operations. -/
def Context.partialWords (c : Context) (table : Nat → Var) : Vocabulary where
  declared x := table x.index = x ∧ (c.valueOf x = .var x ∨ ∃ v, c.valueOf x = Expr.number v x.width)
  width w := w = 1 ∨ w = 8 ∨ w = 16 ∨ w = 32
  sum _ := True
  rich := False
  memory := False
  declared_inj hx hy h := by rw [← hx.1, ← hy.1, h]
  width_one := .inl rfl
  width_pos hw := by omega
  width_lt hw := by omega

def Contents.Extends (ρ : Contents) (c : Context) : Prop :=
  ∀ {x : Var} {n : Int64} {w : Int}, c.valueOf x = .num n w → ρ x = BitVec.ofInt _ n.toInt

namespace Expr

variable {Γ : Vocabulary} {c : Context} {table : Nat → Var} {d : Nat} {o : Operator} {old as : List Expr} {e r : Expr}
  {w : Int}

/-- The last step of an evaluation is flawed, and no step before it. -/
def FirstFlawed (c : Context) : Nat → Expr → Prop
  | d + 1, .op o old =>
    (∀ a ∈ old, Flawless c d a) ∧
      ∃ as, old.mapM (evaluateTo c d) = .ok as ∧ IsFlawed o (widthOf (.op o old)) old as
  | _, _ => False

/-! ### Flawed steps -/

theorem wrap_one_add_neg_one (v : Int64) : wrap 1 (v + -1) ≠ wrap 1 v := by
  rw [← wrap_add]
  rcases fits_one_iff.mp (fits_wrap 1 v) with h | h <;> rw [h] <;> decide

theorem value_eitherOpposite_ne (σ : Machine) (hone : w ≠ 1) (hpos : 0 < w) (hadm : Admissible w) (hle : w ≤ 64) :
    value σ (eitherOpposite w) ≠ -1 := by
  intro h
  refine eitherOpposite_ne hone hpos hadm hle ?_
  have hones := settle_of_fits hpos (wrap_neg_one hpos)
  rw [eitherOpposite, value_number] at h
  rw [eitherOpposite, number_eq, number_eq, h, hones]

theorem two_le_length_numbersOf (has : ∀ a ∈ as, HasWidth Γ a 1) (hne : Operator.plus.total (numbersOf as) ≠ 0)
    (heven : wrap 1 (Operator.plus.total (numbersOf as)) = 0) : 2 ≤ (numbersOf as).length := by
  match hnumbers : numbersOf as with
  | [] =>
    rw [hnumbers] at hne
    exact absurd rfl hne
  | [v] =>
    have hmem : v ∈ numbersOf as := by
      rw [hnumbers]
      exact List.mem_singleton_self v
    obtain ⟨a, ha, hv⟩ := List.mem_filterMap.mp hmem
    obtain ⟨u, rfl⟩ := value?_eq_some hv
    rw [hnumbers, Operator.total_singleton] at hne heven
    cases has _ ha with
    | num _ hfits => exact absurd (hfits.symm.trans heven) hne
  | v :: v' :: vs =>
    rw [List.length_cons, List.length_cons]
    omega

theorem value_ne_of_isFlawed (hle : w ≤ 64) (hold : (Expr.op o old).width = .ok w) (h : HasWidth Γ (.op o as) w)
    (hflawed : IsFlawed o w old as) {red : Reduction} (hred : reduce o w w old as = .ok red) :
    ∃ r, red = .done r ∧ ∀ σ, value σ r ≠ value σ (.op o as) := by
  rcases hflawed with ⟨rfl, hone, hrule⟩ | ⟨rfl, rfl, hrule, hne, heven⟩
  · obtain ⟨-, -, hadm, -⟩ := h.regroup_inv rfl
    cases (reduce_of_some hrule).symm.trans hred
    refine ⟨_, rfl, fun σ => ?_⟩
    obtain ⟨res, hres, hspec⟩ := identityRule_or hold h
    rcases (hspec _ (Except.ok.inj (hres.symm.trans hrule))).2 with ⟨-, hvalue⟩ | ⟨⟨r, hr⟩, -⟩
    · rw [hvalue σ]
      exact value_eitherOpposite_ne σ hone h.width_pos hadm hle
    · cases hr
  · obtain ⟨-, -, -, has⟩ := h.regroup_inv rfl
    obtain ⟨r, hr, -, -, hvalue⟩ := foldConstants_regroup h rfl
    cases (reduce_of_fold hrule rfl hr).symm.trans hred
    refine ⟨r, rfl, fun σ => ?_⟩
    -- an even number of *true* adds nothing, but *true* is added for them
    have hsettle : settle 1 (Operator.plus.total (numbersOf as)) = -1 := by
      rw [settle, if_pos rfl, if_neg hne]
    rw [hvalue σ, if_pos (two_le_length_numbersOf has hne heven), hsettle, value_regroup σ h rfl,
      total_split σ .plus as, Operator.plus.wrap_mix_congr rfl (heven.trans (wrap_zero 1).symm)]
    change wrap 1 (_ + -1) ≠ wrap 1 (_ + 0)
    rw [Int64.add_zero]
    exact wrap_one_add_neg_one _

/-! ### Every evaluation -/

theorem suits_partialWords (c : Context) (table : Nat → Var) : c.Suits (c.partialWords table) where
  valueOf hx := hx.2
  assignment hmemory := hmemory.elim

theorem width_le_of_partialWords (u : Int) (hu : (c.partialWords table).width u) : u ≤ 64 := by
  rcases hu with rfl | rfl | rfl | rfl <;> decide

theorem agrees_of_extends {ρ : Contents} (hρ : ρ.Extends c) : (machine ρ).Agrees (c.partialWords table) c := by
  rintro x ⟨-, hx⟩ hw
  rcases hx with hself | ⟨v, hv⟩
  · rw [hself]
  · have hpos := (c.partialWords table).width_pos hw
    rw [hv, value_number]
    refine (value_var_machine (width_le_of_partialWords _ hw) (fits_settle hpos v) (hρ (w := x.width) ?_)).symm
    rw [hv, number_eq]

theorem value_eq_iff_denote_eq (ρ : Contents) (he : HasWidth (c.partialWords table) e w)
    (hr : HasWidth (c.partialWords table) r w) :
    value (machine ρ) r = value (machine ρ) e ↔ r.denote ρ w.toNat = e.denote ρ w.toNat := by
  have hle := width_le_of_partialWords w he.width_eq.2
  have hstandard {e : Expr} (he : HasWidth (c.partialWords table) e w) : Standard (c.partialWords table) e w :=
    standard_of_hasWidth id id (fun _ h => h) (fun _ h => h) (fun _ h => h) he
  rw [value_eq_ofBits_denote width_le_of_partialWords ρ (hstandard he),
    value_eq_ofBits_denote width_le_of_partialWords ρ (hstandard hr), ofBits_inj (by omega)]

theorem value_ne_of_firstFlawed (hc : c.Suits Γ) (hle : ∀ u, Γ.width u → u ≤ 64) (h : HasWidth Γ e w)
    (hweight : e.weight ≤ d) (hflawed : FirstFlawed c d e) (hr : evaluateTo c d e = .ok r) {σ : Machine}
    (hσ : σ.Agrees Γ c) : value σ r ≠ value σ e := by
  match d, e, hflawed with
  | d + 1, .op o old, ⟨hoperands, as', has', hflawed⟩ =>
    obtain ⟨as, red, hstep⟩ := exists_step (evaluates hc d) h hweight
    cases hstep.mapM_eq.symm.trans has'
    rw [h.widthOf_eq] at hflawed
    obtain ⟨r', rfl, hne⟩ := value_ne_of_isFlawed (hle w h.width_eq.2) h.width_eq.1 hstep.hasWidth
      hflawed hstep.reduce_eq
    cases hr.symm.trans hstep.evaluateTo_eq
    rw [← hstep.value_operands h hσ hoperands]
    exact hne σ

/-- **Partial evaluation.** Every expression is evaluated to one of the same width. If no step is
flawed, both stand for the same bit vector, whatever the unknown variables are. If the last step is
the first flawed one, they never do.
-/
theorem evaluate_keeps_denote (h : HasWidth (c.partialWords table) e w) :
    ∃ r, e.evaluate c = .ok r ∧ e.width = .ok w ∧ r.width = .ok w ∧
      (Flawless c e.depth e → ∀ ρ : Contents, ρ.Extends c → r.denote ρ w.toNat = e.denote ρ w.toNat) ∧
      (FirstFlawed c e.depth e → ∀ ρ : Contents, ρ.Extends c → r.denote ρ w.toNat ≠ e.denote ρ w.toNat) := by
  have hc := suits_partialWords c table
  obtain ⟨r, hr, hrtyped, hkeeps⟩ := evaluate_spec hc h
  refine ⟨r, hr, h.width_eq.1, hrtyped.width_eq.1, fun hflawless ρ hρ => ?_,
    fun hflawed ρ hρ => ?_⟩
  · exact (value_eq_iff_denote_eq ρ h hrtyped).mp (hkeeps _ (agrees_of_extends hρ) hflawless)
  · rw [ne_eq, ← value_eq_iff_denote_eq ρ h hrtyped]
    exact value_ne_of_firstFlawed hc width_le_of_partialWords h (weight_le_depth e) hflawed hr (agrees_of_extends hρ)

/-- A variable and its negative cancel out of a sum, and nothing is flawed. -/
theorem evaluate_cancelled_sum :
    let al : Var := ⟨0, "al", 8⟩
    let e : Expr := .op .plus [.var al, .num 5 8, .op .neg [.var al]]
    HasWidth (Context.empty.partialWords fun _ => al) e 8 ∧ Flawless .empty e.depth e ∧
      ∃ r, e.evaluate .empty = .ok r ∧ ∀ ρ : Contents, ρ.Extends .empty → r.denote ρ 8 = e.denote ρ 8 := by
  intro al e
  have hal : HasWidth (Context.empty.partialWords fun _ => al) (.var al) 8 := .var ⟨rfl, .inl rfl⟩ (.inr (.inl rfl))
  have htyped : HasWidth (Context.empty.partialWords fun _ => al) e 8 := by
    refine .regroup rfl (fun _ => trivial) (by decide) (.inr rfl) ?_
    simp only [List.forall_mem_cons, List.not_mem_nil, false_implies, implies_true, and_true]
    exact ⟨hal, .num (.inr (.inl rfl)) (by decide), .neg trivial (.inr rfl) hal⟩
  have hneg : Flawless .empty 2079 (.op .neg [.var al]) := by
    exact flawless_op [.var al] (.done (.op .neg [.var al])) (by simp) (by cbv) (not_isFlawed (by decide) (by decide))
      (by cbv) (by simp)
  have hflawless : Flawless .empty e.depth e := by
    refine flawless_op (d := 2079) [.var al, .num 5 8, .op .neg [.var al]] (.done (.num 5 8)) ?_ (by cbv) ?_ (by cbv)
      (by simp)
    · simpa using hneg
    · rintro (⟨h, -⟩ | ⟨-, h, -⟩)
      · cases h
      · revert h
        decide
  obtain ⟨r, hr, -, -, hkeeps, -⟩ := evaluate_keeps_denote htyped
  exact ⟨htyped, hflawless, r, hr, hkeeps hflawless⟩

/-- A disjunction of a variable and its negation has all bits set, and *true* and *true* add up to
*false*; but neither evaluates to this. -/
theorem evaluate_flawed_steps :
    let al : Var := ⟨0, "al", 8⟩
    let opposites : Expr := .op .or [.var al, .op .not [.var al]]
    let truths : Expr := .op .plus [tt, tt]
    opposites.evaluate .empty = .ok (.num (-5) 8) ∧ (∀ ρ : Contents, opposites.denote ρ 8 = BitVec.allOnes 8) ∧
      truths.evaluate .empty = .ok tt ∧ ∀ ρ : Contents, truths.denote ρ 1 = 0 := by
  intro al opposites truths
  refine ⟨by cbv, fun ρ => ?_, by cbv, fun ρ => by cbv⟩
  change denote ρ (.var al) 8 ||| (~~~denote ρ (.var al) 8 ||| 0#8) = _
  ext i hi
  simp

end Expr

end FlowRecovery
