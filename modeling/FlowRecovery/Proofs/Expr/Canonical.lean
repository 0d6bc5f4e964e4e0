import FlowRecovery.Expr.Canonical
import FlowRecovery.Proofs.Expr.Evaluation

/-!
# Canonical forms keep meaning

The depth to which an expression is worked through is bounded by its weight, since a branch of a
conditional operand is lighter than the operand and no way to build an expression adds weight
(`weight_of_operation`). So canonization always comes to an end (`canonizeTo_shallow`). For an
expression with a width it gives one of the same width and value.

A sum in a branch is drawn into the sum around it, which gives another value if the two are of
different widths (`canonize_mixed_sum`).
-/

namespace FlowRecovery.Expr

open List

variable {Γ : Vocabulary} {o : Operator} {old as before after : List Expr} {a b c t f e r : Expr} {d : Nat} {w : Int}

/-! ### Weight -/

theorem load_of_negated (h : negated a = .ok r) : load .plus r ≤ load .plus a := by
  unfold negated at h
  split at h
  · next b bs =>
    cases h
    have := burden_le_one .plus r
    rw [load_plus_neg, weight, loads, load]
    omega
  · next hneg =>
    obtain rfl := apply_eq_ok h
    rw [load_plus_neg, weight_unary (by decide)]
    cases hnegative : a.isNegative with
    | false => rw [load_plus hnegative]
    | true =>
      -- only the negative of nothing is left, and it has no width
      unfold isNegative at hnegative
      split at hnegative
      · next bs =>
        cases bs with
        | nil => cases h
        | cons b bs => exact absurd rfl (hneg b bs)
      · cases hnegative

theorem loads_of_mapM_negated {bs : List Expr} (h : as.mapM negated = .ok bs) : loads .plus bs ≤ loads .plus as := by
  induction as generalizing bs with
  | nil => cases h; exact Nat.le_refl _
  | cons a as ih =>
    rw [mapM_cons] at h
    obtain ⟨b, hb, h⟩ := of_bind_eq_ok h
    obtain ⟨bs, hbs, h⟩ := of_bind_eq_ok h
    cases h
    have hload := load_of_negated hb
    have hloads := ih hbs
    unfold load at hload
    rw [loads, loads]
    omega

theorem weight_of_operation (h : operation o as = .ok r) : r.weight ≤ (Expr.op o as).weight := by
  have happly {p : Operator} {bs : List Expr} (h : apply p bs = .ok r) : r.weight = 1 + loads p bs := by
    rw [apply_eq_ok h, weight]
  have hfirst {p q : Operator} {b : Expr} {bs as : List Expr} :
      b.weight ≤ (op p (.op q (b :: bs) :: as)).weight := by
    rw [weight, loads, weight, loads]
    omega
  rw [weight]
  unfold operation at h
  split at h
  · have := loads_flatten .plus as; rw [happly h]; omega
  · have := loads_flatten .and as; rw [happly h]; omega
  · have := loads_flatten .or as; rw [happly h]; omega
  · split at h
    · cases h
    · cases h; exact hfirst
    · exact Nat.le_of_eq (happly h)
  · split at h
    · cases h
    · cases h; exact hfirst
    · next bs as =>
      obtain ⟨bs', hbs, h⟩ := of_bind_eq_ok h
      have := loads_of_mapM_negated hbs
      rw [happly h, loads, weight]
      omega
    · exact Nat.le_of_eq (happly h)
  · exact Nat.le_of_eq (happly h)

theorem weight_of_named {name : String} (h : named name as = .ok r) : r.weight ≤ (Expr.special name as).weight := by
  rw [weight]
  unfold named at h
  split at h
  · split at h <;> cases h
    · rw [loads, weight]
      omega
    · rw [weight]
  · split at h
    · split at h
      · cases h
      · obtain ⟨v, -, h⟩ := of_bind_eq_ok h
        unfold unspecified at h
        split at h <;> cases h
        exact Nat.le_add_right 1 _
    · cases h
      rw [weight]

/-! ### Nesting -/

/-- The computation does not stop because of its nesting. -/
def Shallow {α : Type} (x : Except Fault α) : Prop := x ≠ .error .tooDeep

section

variable {α β : Type} {x : Except Fault α} {g : α → Except Fault β} {ws : List (Except Fault Int)}

theorem Shallow.bind (hx : Shallow x) (hg : ∀ a, x = .ok a → Shallow (g a)) : Shallow (x >>= g) := by
  cases x with
  | ok a => exact hg a rfl
  | error fault =>
    intro h
    cases h
    exact hx rfl

theorem shallow_mapM {l : List α} (h : ∀ a ∈ l, Shallow (g a)) : Shallow (l.mapM g) := by
  induction l with
  | nil => nofun
  | cons a l ih =>
    obtain ⟨ha, hl⟩ := forall_mem_cons.mp h
    rw [mapM_cons]
    exact ha.bind fun _ _ => (ih hl).bind fun _ _ => nofun

theorem shallow_operand (as : List α) (n : Nat) : Shallow (operand as n) := by
  unfold operand
  split <;> nofun

theorem shallow_literal (a : Expr) : Shallow (literal a) := by
  unfold literal
  split <;> nofun

theorem shallow_operand_bind (h : ∀ u ∈ ws, Shallow u) (n : Nat) : Shallow (operand ws n >>= id) := by
  refine (shallow_operand ws n).bind fun u hu => ?_
  unfold operand at hu
  split at hu
  · next hget =>
    cases hu
    exact h u (mem_of_getElem? hget)
  · cases hu

theorem shallow_commonWidth (h : ∀ u ∈ ws, Shallow u) : Shallow (commonWidth ws) := by
  have hgo (bw : Int) (ws : List (Faulty Int)) (h : ∀ u ∈ ws, Shallow u) : Shallow (commonWidth.go bw ws) := by
    induction ws generalizing bw with
    | nil => nofun
    | cons u ws ih =>
      obtain ⟨hu, hws⟩ := forall_mem_cons.mp h
      refine hu.bind fun next _ => ?_
      split
      · nofun
      · exact ih _ hws
  cases ws with
  | nil => nofun
  | cons u ws =>
    obtain ⟨hu, hws⟩ := forall_mem_cons.mp h
    refine hu.bind fun first _ => ?_
    split
    · nofun
    · exact hgo _ _ hws

theorem shallow_operationWidth (h : ∀ u ∈ ws, Shallow u) : Shallow (operationWidth o as ws) := by
  have hcommon := shallow_commonWidth h
  have hoperand := shallow_operand_bind h
  have hliteral (n : Nat) : Shallow (operand as n >>= literal) :=
    (shallow_operand as n).bind fun a _ => shallow_literal a
  cases o with
  | equal | less | lessOrEqual | unsignedLess | unsignedLessOrEqual | unknown => nofun
  | plus | floatMul | floatDiv | and | or | xor => exact hcommon
  | mul => exact hcommon.bind fun _ _ => nofun
  | cast | floatResize => exact hliteral 1
  | signExtend | zeroFill => exact (hliteral 1).bind fun _ _ => (hoperand 2).bind fun _ _ => nofun
  | _ => exact hoperand _

end

mutual

theorem shallow_width : ∀ e : Expr, Shallow e.width
  | .num .. | .var _ | .mem .. | .special .. | .nondet _ => nofun
  | .op o as => shallow_operationWidth (shallow_widths as)
  | .cond _ t _ => shallow_width t
  | .bits x f l => by
    by_cases hnumbers : ∃ v w v' w', f = .num v w ∧ l = .num v' w'
    · obtain ⟨v, w, v', w', rfl, rfl⟩ := hnumbers
      nofun
    · rw [width]
      · split <;> nofun
      · exact fun v w v' w' hf hl => hnumbers ⟨v, w, v', w', hf, hl⟩

theorem shallow_widths : ∀ as : List Expr, ∀ u ∈ widths as, Shallow u
  | [] => nofun
  | a :: as => forall_mem_cons.mpr ⟨shallow_width a, shallow_widths as⟩

end

theorem shallow_apply (o : Operator) (as : List Expr) : Shallow (apply o as) := by
  refine (shallow_operationWidth (shallow_widths as)).bind fun w _ => ?_
  split <;> nofun

theorem shallow_operation (o : Operator) (as : List Expr) : Shallow (operation o as) := by
  unfold operation
  split
  · exact shallow_apply _ _
  · exact shallow_apply _ _
  · exact shallow_apply _ _
  · split
    · nofun
    · nofun
    · exact shallow_apply _ _
  · split
    · nofun
    · nofun
    · refine (shallow_mapM fun a _ => ?_).bind fun _ _ => shallow_apply _ _
      unfold negated
      split
      · nofun
      · exact shallow_apply _ _
    · exact shallow_apply _ _
  · exact shallow_apply _ _

theorem shallow_named (name : String) (as : List Expr) : Shallow (named name as) := by
  unfold named
  split
  · split <;> simp [Shallow]
  · split
    · split
      · simp [Shallow]
      · refine (shallow_literal _).bind fun v _ => ?_
        unfold unspecified
        split <;> simp [Shallow]
    · simp [Shallow]

/-! ### Conditions that are drawn out -/

theorem eq_of_splitConditional (h : splitConditional as = some (before, (c, t, f), after)) :
    as = before ++ .cond c t f :: after := by
  fun_induction splitConditional as generalizing before with
  | case1 => cases h
  | case2 => cases h; rfl
  | case3 a as _ ih =>
    obtain ⟨⟨before', parts, after'⟩, h', heq⟩ := Option.map_eq_some_iff.mp h
    cases heq
    rw [ih h']
    rfl

theorem loads_branch (o : Operator) (before after : List Expr) (h : b.weight + 1 < a.weight) :
    loads o (before ++ b :: after) < loads o (before ++ a :: after) := by
  have := burden_le_one o b
  rw [loads_append, loads_append, loads, loads]
  omega

theorem weight_branches (c t f : Expr) :
    t.weight + 1 < (Expr.cond c t f).weight ∧ f.weight + 1 < (Expr.cond c t f).weight := by
  have := weight_pos c
  have := weight_pos t
  have := weight_pos f
  rw [weight]
  omega

variable {make : List Expr → Faulty Expr}

theorem shallow_drawOut (hlight : ∀ {as r}, make as = .ok r → r.weight ≤ 1 + loads o as) (h : 1 + loads o old ≤ d + 1)
    (hmake : ∀ as, Shallow (make as)) (hd : ∀ e : Expr, e.weight ≤ d → Shallow (canonizeTo d e)) :
    Shallow (drawOut (canonizeTo d) make old) := by
  unfold drawOut
  split
  · next before c t f after hsplit =>
    rw [eq_of_splitConditional hsplit] at h
    have hbranch {b : Expr} (hb : b.weight + 1 < (cond c t f).weight) :
        Shallow (make (before ++ b :: after) >>= canonizeTo d) := by
      refine (hmake _).bind fun r hr => hd r ?_
      have := hlight hr
      have := loads_branch o before after hb
      omega
    exact (hbranch (weight_branches c t f).1).bind fun _ _ => (hbranch (weight_branches c t f).2).bind fun _ _ => nofun
  · refine (shallow_mapM fun a ha => hd a ?_).bind fun _ _ => hmake _
    have := weight_le_of_mem (o := o) ha
    omega

/-- **Termination.** An expression is worked through within the depth of its weight. -/
theorem canonizeTo_shallow (h : e.weight ≤ d) : Shallow (canonizeTo d e) := by
  induction d generalizing e with
  | zero => exact absurd (weight_pos e) (Nat.not_lt.mpr h)
  | succ d ih =>
    cases e with
    | num | var | nondet => nofun
    | op o as =>
      rw [weight] at h
      exact shallow_drawOut (fun hr => weight_of_operation hr) h (shallow_operation o) fun _ => ih
    | special name as =>
      rw [weight] at h
      exact shallow_drawOut (fun hr => weight_of_named hr) h (shallow_named name) fun _ => ih
    | bits x f l =>
      rw [weight] at h
      exact (ih (by omega)).bind fun _ _ => (ih (by omega)).bind fun _ _ => (ih (by omega)).bind fun _ _ => nofun
    | cond c t f =>
      rw [weight] at h
      refine (ih (e := c) (by omega)).bind fun c' _ => ?_
      split
      · split <;> exact ih (by omega)
      · exact (ih (by omega)).bind fun _ _ => (ih (by omega)).bind fun _ _ => nofun
    | mem w a s n =>
      rw [weight] at h
      refine (ih (e := a) (by omega)).bind fun a' _ => ?_
      unfold memory
      split <;> nofun

/-! ### Meaning -/

/-- A result satisfies `Q`, and there is one if operations can have all widths. -/
structure Gives {α : Type} (Γ : Vocabulary) (x : Except Fault α) (Q : α → Prop) : Prop where
  of_ok {r : α} (h : x = .ok r) : Q r
  exists_ok (hΓ : ∀ u, Γ.width u → Admissible u) : ∃ r, x = .ok r

section

variable {α β : Type} {x : Except Fault α} {Q : α → Prop}

theorem gives_of_eq {r : α} (h : x = .ok r) (hr : Q r) : Gives Γ x Q :=
  ⟨fun h' => Except.ok.inj (h.symm.trans h') ▸ hr, fun _ => ⟨r, h⟩⟩

theorem Gives.bind {g : α → Faulty β} {R : β → Prop} (hx : Gives Γ x Q)
    (hg : ∀ a, x = .ok a → Q a → Gives Γ (g a) R) : Gives Γ (x >>= g) R where
  of_ok h := by
    obtain ⟨a, ha, h⟩ := of_bind_eq_ok h
    exact (hg a ha (hx.of_ok ha)).of_ok h
  exists_ok hΓ := by
    obtain ⟨a, ha⟩ := hx.exists_ok hΓ
    rw [ha]
    exact (hg a ha (hx.of_ok ha)).exists_ok hΓ

theorem Gives.imp {R : α → Prop} (hx : Gives Γ x Q) (h : ∀ a, x = .ok a → Q a → R a) : Gives Γ x R :=
  ⟨fun hr => h _ hr (hx.of_ok hr), hx.exists_ok⟩

theorem gives_mapM {g : α → Faulty β} {R : α → β → Prop} {l : List α} (h : ∀ a ∈ l, Gives Γ (g a) (R a)) :
    Gives Γ (l.mapM g) (Forall₂ R l) := by
  induction l with
  | nil => exact gives_of_eq rfl .nil
  | cons a l ih =>
    obtain ⟨ha, hl⟩ := forall_mem_cons.mp h
    rw [mapM_cons]
    exact ha.bind fun b _ hb => (ih hl).bind fun bs _ hbs => gives_of_eq rfl (.cons hb hbs)

end

/-- The second expression has the width `w` and the value of the first. -/
def Keeps (Γ : Vocabulary) (w : Int) (e r : Expr) : Prop := HasWidth Γ r w ∧ ∀ σ, value σ r = value σ e

theorem operation_gives (h : HasWidth Γ (.op o as) w) : Gives Γ (operation o as) (Keeps Γ w (.op o as)) := by
  have hbinary (ho : o.isBinary) : Gives Γ (operation o as) (Keeps Γ w (.op o as)) :=
    gives_of_eq (operation_binary h ho) ⟨h, fun _ => rfl⟩
  have happly (ho : operation o as = apply o as) : Gives Γ (operation o as) (Keeps Γ w (.op o as)) := by
    rw [ho]
    refine ⟨fun hr => ?_, fun hΓ => ⟨_, h.apply_eq (hΓ w h.width_eq.2)⟩⟩
    obtain rfl := apply_eq_ok hr
    exact ⟨h, fun _ => rfl⟩
  have htyped := h
  cases h with
  | regroup ho =>
    obtain ⟨r, hr, htyped, -, -, hvalue⟩ := operation_regroup htyped ho
    exact gives_of_eq hr ⟨htyped, hvalue⟩
  | not hadm ha =>
    obtain ⟨r, hr, htyped, -, hvalue⟩ := operation_not ha hadm
    exact gives_of_eq hr ⟨htyped, fun σ => (hvalue σ).trans (value_not σ ha hadm).symm⟩
  | neg hsum hadm ha =>
    obtain ⟨r, hr, htyped, -, hvalue⟩ := operation_neg ha hsum hadm
    exact gives_of_eq hr ⟨htyped, fun σ => (hvalue σ).trans (value_neg σ ha hsum hadm).symm⟩
  | xor => exact hbinary rfl
  | compare ho => exact hbinary (Operator.isBinary_of_isComparison ho)
  | arith _ ho => exact hbinary (Operator.isBinary_of_resizes ho)
  | cast => exact happly rfl
  | functional _ ho | unknown _ ho =>
    refine happly ?_
    cases o <;> first | rfl | cases ho

theorem forall₂_branch (h : HasWidth Γ a w) (ha : a.isNumber = false) (hb : HasWidth Γ b w) (before after : List Expr) :
    Forall₂ (Replaces Γ) (before ++ a :: after) (before ++ b :: after) := by
  have hself (as : List Expr) : Forall₂ (Replaces Γ) as as := forall₂_same.mpr fun _ _ => ⟨fun _ => rfl, id⟩
  refine rel_append (hself before) (.cons ⟨fun hnumber => ?_, fun h' => h.unique h' ▸ hb⟩ (hself after))
  rw [ha] at hnumber
  cases hnumber

/-- **Operands.** Whatever is made of operands, so that it keeps its value as they do, keeps it when
conditions are drawn out of them. -/
theorem drawOut_gives (hlight : ∀ {as r}, make as = .ok r → r.weight ≤ 1 + loads o as) (h : 1 + loads o old ≤ d + 1)
    (hmake : ∀ {as}, Forall₂ (Replaces Γ) old as → Gives Γ (make as) fun r =>
      HasWidth Γ r w ∧ ∀ σ, as.map (value σ) = old.map (value σ) → value σ r = value σ e)
    (hold : ∀ a ∈ old, a.isNumber ∨ ∃ u, HasWidth Γ a u)
    (hd : ∀ {e w}, HasWidth Γ e w → e.weight ≤ d → Gives Γ (canonizeTo d e) (Keeps Γ w e)) :
    Gives Γ (drawOut (canonizeTo d) make old) (Keeps Γ w e) := by
  unfold drawOut
  split
  · next before c t f after hsplit =>
    obtain rfl := eq_of_splitConditional hsplit
    obtain ⟨u, hcond⟩ := (hold (.cond c t f) (by simp)).resolve_left (by simp [isNumber, value?])
    have hbranch {b : Expr} (hb : HasWidth Γ b u) (hweight : b.weight + 1 < (cond c t f).weight) :
        Gives Γ (make (before ++ b :: after) >>= canonizeTo d) fun r =>
          HasWidth Γ r w ∧ ∀ σ, value σ b = value σ (.cond c t f) → value σ r = value σ e := by
      refine (hmake (forall₂_branch hcond rfl hb before after)).bind fun r hr hmade => ?_
      obtain ⟨htyped, hvalue⟩ := hmade
      have := hlight hr
      have := loads_branch o before after hweight
      refine (hd htyped (by omega)).imp fun r' _ hkeeps => ⟨hkeeps.1, fun σ hσ => ?_⟩
      exact (hkeeps.2 σ).trans (hvalue σ (by simp [hσ]))
    cases hcond with
    | cond hrich hc ht hf =>
      refine (hbranch ht (weight_branches c t f).1).bind fun t' _ htrue =>
        (hbranch hf (weight_branches c t f).2).bind fun f' _ hfalse => ?_
      obtain ⟨ht', hvalue₁⟩ := htrue
      obtain ⟨hf', hvalue₂⟩ := hfalse
      obtain ⟨hr, -, hvalue⟩ := conditional_spec hrich hc ht' hf'
      refine gives_of_eq rfl ⟨hr, fun σ => ?_⟩
      rw [hvalue, value]
      split
      · next h => exact hvalue₂ σ (by rw [value, if_pos h])
      · next h => exact hvalue₁ σ (by rw [value, if_neg h])
  · have hoperands : Gives Γ (old.mapM (canonizeTo d))
        (Forall₂ (fun a r => Replaces Γ a r ∧ ∀ σ, value σ r = value σ a) old) := by
      refine gives_mapM fun a ha => ?_
      have hweight := weight_le_of_mem (o := o) ha
      have hpos := weight_pos a
      rcases hold a ha with hnumber | ⟨u, hu⟩
      · obtain ⟨v, u, rfl⟩ := exists_num_of_isNumber hnumber
        obtain ⟨d, rfl⟩ := Nat.exists_eq_add_one.mpr (show 0 < d by omega)
        exact gives_of_eq rfl ⟨⟨fun _ => rfl, id⟩, fun _ => rfl⟩
      · refine (hd hu (by omega)).imp fun r hr hkeeps =>
          ⟨⟨fun hnumber => ?_, fun h' => hu.unique h' ▸ hkeeps.1⟩, hkeeps.2⟩
        obtain ⟨v, u', rfl⟩ := exists_num_of_isNumber hnumber
        obtain ⟨d, rfl⟩ := Nat.exists_eq_add_one.mpr (show 0 < d by omega)
        exact (Except.ok.inj hr).symm
    refine hoperands.bind fun as _ hall => (hmake (hall.imp fun _ _ h => h.1)).imp fun r _ hmade => ?_
    exact ⟨hmade.1, fun σ => hmade.2 σ (map_eq_of_forall₂ hall fun _ _ _ h => h.2 σ)⟩

theorem canonizeTo_gives (he : HasWidth Γ e w) (h : e.weight ≤ d) : Gives Γ (canonizeTo d e) (Keeps Γ w e) := by
  induction d generalizing e w with
  | zero => exact absurd (weight_pos e) (Nat.not_lt.mpr h)
  | succ d ih =>
    have hop {o : Operator} {as : List Expr} {w : Int} (he : HasWidth Γ (.op o as) w)
        (h : (op o as).weight ≤ d + 1) : Gives Γ (canonizeTo (d + 1) (.op o as)) (Keeps Γ w (.op o as)) := by
      rw [weight] at h
      refine drawOut_gives (fun hr => weight_of_operation hr) h (fun hall => ?_) he.operand ih
      exact (operation_gives (hasWidth_replaced he hall)).imp fun r _ hkeeps =>
        ⟨hkeeps.1, fun σ hσ => (hkeeps.2 σ).trans (value_replaced he hall hσ)⟩
    have htyped := he
    cases he with
    | num hw hv => exact gives_of_eq rfl ⟨.num hw hv, fun _ => rfl⟩
    | var hx hw => exact gives_of_eq rfl ⟨.var hx hw, fun _ => rfl⟩
    | nondet hrich hw => exact gives_of_eq rfl ⟨.nondet hrich hw, fun _ => rfl⟩
    | special hrich hname hlen hw has =>
      rw [weight] at h
      refine drawOut_gives (fun hr => weight_of_named hr) h (fun hall => ?_) (fun a ha => ?_) ih
      · refine gives_of_eq (r := .special _ _) ?_
          ⟨.special hrich hname (hlen.trans hall.length_eq) hw (hasWidth_zip has hall), fun σ hσ => ?_⟩
        · unfold named
          rw [if_neg (by simpa using hname.1), if_neg (by simpa using hname.2)]
        · rw [value, value, values_eq_map, values_eq_map, hσ]
      · obtain ⟨u, hp⟩ := exists_mem_zip hlen ha
        exact .inr ⟨u, has _ hp⟩
    | bits hrich hfirst hle hu hlt hwidth hx =>
      rw [weight] at h
      have hnumber (v : Int64) (w : Int) : canonizeTo d (.num v w) = .ok (.num v w) := by
        obtain ⟨d, rfl⟩ := Nat.exists_eq_add_one.mpr (show 0 < d by simp only [weight] at h; omega)
        rfl
      refine (ih hx (by omega)).bind fun x' _ hkeeps => ?_
      obtain ⟨hx', hvalue⟩ := hkeeps
      rw [hnumber, hnumber]
      exact gives_of_eq rfl ⟨.bits hrich hfirst hle hu hlt hwidth hx', fun σ => by simp only [value, hvalue]⟩
    | cond hrich hc ht hf =>
      rw [weight] at h
      refine (ih hc (by omega)).bind fun c' _ hkeeps => ?_
      obtain ⟨hc', hvalue⟩ := hkeeps
      have ht' := ih ht (by omega)
      have hf' := ih hf (by omega)
      split
      · next v u _ =>
        have hv (σ : Machine) : value σ (.num v u) = v := by rw [value]
        split
        · next hzero =>
          refine hf'.imp fun r _ hkeeps => ⟨hkeeps.1, fun σ => ?_⟩
          rw [hkeeps.2, value, ← hvalue, hv, if_pos (eq_of_beq hzero)]
        · next hone =>
          refine ht'.imp fun r _ hkeeps => ⟨hkeeps.1, fun σ => ?_⟩
          rw [hkeeps.2, value, ← hvalue, hv, if_neg (by simpa using hone)]
      · refine ht'.bind fun t' _ htrue => hf'.bind fun f' _ hfalse => ?_
        obtain ⟨htt, hvalue₁⟩ := htrue
        obtain ⟨hff, hvalue₂⟩ := hfalse
        obtain ⟨hr, -, hvalue'⟩ := conditional_spec hrich hc' htt hff
        exact gives_of_eq rfl ⟨hr, fun σ => by rw [hvalue', value, value, hvalue, hvalue₁, hvalue₂]⟩
    | mem hmemory hw ha hs =>
      rw [weight] at h
      refine (ih ha (by omega)).bind fun a' _ hkeeps => gives_of_eq (if_pos (Γ.width_pos hw))
        ⟨.mem hmemory hw hkeeps.1 hs, fun σ => by rw [value, value, hkeeps.2]⟩
    | _ => exact hop htyped h

/-- **Canonization.** It always comes to an end. An expression with a width becomes one of the same
width that has the same value on all machines, if it becomes one; this is the case unless there are
widths other than one and the multiples of eight. -/
theorem canonize_keeps (e : Expr) : e.canonize ≠ .error .tooDeep ∧ ∀ {Γ : Vocabulary} {w : Int}, HasWidth Γ e w →
    (∀ r, e.canonize = .ok r → HasWidth Γ r w ∧ ∀ σ, value σ r = value σ e) ∧
      ((∀ u, Γ.width u → Admissible u) → ∃ r, e.canonize = .ok r) := by
  have hweight : e.weight ≤ 4 * e.size + 16 := by
    have := weight_lt_size e
    omega
  refine ⟨canonizeTo_shallow hweight, fun h => ?_⟩
  have hgives := canonizeTo_gives h hweight
  exact ⟨fun r hr => hgives.of_ok hr, hgives.exists_ok⟩

/-- The condition of a summand becomes one of the sum. Its negation is dropped, and the branches
change places. -/
theorem canonize_chosen_summand :
    let zf : Var := ⟨0, "ZF", 1⟩
    let eax : Var := ⟨1, "eax", 32⟩
    let loaded : Expr := .mem 32 (.var eax) none 0
    let e : Expr := .op .plus [.cond (.op .not [.var zf]) loaded (.num 1 32), .var eax]
    let r : Expr := .cond (.var zf) (.op .plus [.num 1 32, .var eax]) (.op .plus [loaded, .var eax])
    e.canonize = .ok r ∧ ∀ σ, value σ r = value σ e := by
  intro zf eax loaded e r
  let Γ : Vocabulary :=
    { declared := fun x => x = zf ∨ x = eax
      width := fun w => w = 1 ∨ w = 32
      sum := fun _ => True
      rich := True
      memory := True
      declared_inj := by
        rintro x y (rfl | rfl) (rfl | rfl) h
        · rfl
        · cases h
        · cases h
        · rfl
      width_one := .inl rfl
      width_pos := by omega
      width_lt := by omega }
  have heax : HasWidth Γ (.var eax) 32 := .var (.inr rfl) (.inr rfl)
  have hnone : ∀ s ∈ (none : Option Expr), HasWidth Γ s 16 := nofun
  have hcond : HasWidth Γ (.cond (.op .not [.var zf]) loaded (.num 1 32)) 32 :=
    .cond trivial (.not (.inl rfl) (.var (.inl rfl) (.inl rfl))) (.mem trivial (.inr rfl) heax hnone)
      (.num (.inr rfl) (by decide))
  have he : HasWidth Γ e 32 :=
    .regroup rfl (fun _ => trivial) (by decide) (.inr rfl) (forall_mem_pair.mpr ⟨hcond, heax⟩)
  have hr : e.canonize = .ok r := by cbv
  exact ⟨hr, (((canonize_keeps e).2 he).1 r hr).2⟩

/-- A sum of eight bits in a branch of a summand of another width: its summands become summands of
32 bits, and it is no longer cut to eight. -/
theorem canonize_mixed_sum :
    let zf : Var := ⟨0, "ZF", 1⟩
    let al : Var := ⟨1, "al", 8⟩
    let edx : Var := ⟨2, "edx", 32⟩
    let e : Expr := .op .plus [.cond (.var zf) (.op .plus [.var al, .var al]) (.var al), .var edx]
    let σ : Machine := ⟨fun x => if x = al then 64 else -1, fun _ _ _ => 0, fun _ _ => 0, fun _ => 0, fun _ _ _ => 0⟩
    ∃ r, e.canonize = .ok r ∧ value σ e = -129 ∧ value σ r = 127 := by
  intro zf al edx e σ
  exact ⟨.cond (.var zf) (.op .plus [.var edx, .var al, .var al]) (.op .plus [.var al, .var edx]), by cbv, by cbv,
    by cbv⟩

end FlowRecovery.Expr
