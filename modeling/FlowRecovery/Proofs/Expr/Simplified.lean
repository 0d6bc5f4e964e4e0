import FlowRecovery.Expr.Simplification
import FlowRecovery.Proofs.Ending

/-!
# Simplified forms

Simplification goes on until a round changes nothing. Then no rule matches any part of the
expression, except in conditions, whose simplification does not count as a change
(`simplify_unmatched`).
-/

namespace FlowRecovery

namespace Expr

variable {rules : List Rule} {e e' s : Expr} {as : List Expr} {n : Nat}

/-- `s` stands in `e`, and not in a condition nor in the address of a memory location. -/
inductive Shown (s : Expr) : Expr → Prop where
  | self : Shown s s
  | op {o : Operator} {as : List Expr} {a : Expr} (ha : a ∈ as) (h : Shown s a) : Shown s (.op o as)
  | special {n : String} {as : List Expr} {a : Expr} (ha : a ∈ as) (h : Shown s a) : Shown s (.special n as)
  | bits {x f l a : Expr} (ha : a = x ∨ a = f ∨ a = l) (h : Shown s a) : Shown s (.bits x f l)
  | cond {c t f a : Expr} (ha : a = t ∨ a = f) (h : Shown s a) : Shown s (.cond c t f)

/-- No rule matches the expression. -/
def Unmatched (rules : List Rule) (e : Expr) : Prop := ∀ r ∈ rules, matchPattern r.pattern e [] = .ok none

theorem unmatched_of_applyRules (h : applyRules rules e = .ok none) : Unmatched rules e := by
  induction rules with
  | nil => nofun
  | cons r rules ih =>
    obtain ⟨res, hres, h⟩ := of_bind_eq_ok h
    cases res with
    | none => exact List.forall_mem_cons.mpr ⟨hres, ih h⟩
    | some b =>
      obtain ⟨x, -, h⟩ := of_bind_eq_ok h
      obtain ⟨y, -, h⟩ := of_bind_eq_ok h
      cases h

theorem forall_of_simplifyAll {as' : List Expr} (h : simplifyAll rules as = .ok (as', false)) :
    ∀ a ∈ as, simplifyOnce rules a = .ok none := by
  induction as generalizing as' with
  | nil => nofun
  | cons a as ih =>
    rw [simplifyAll] at h
    obtain ⟨a', ha, h⟩ := of_bind_eq_ok h
    obtain ⟨⟨as', changed⟩, has, h⟩ := of_bind_eq_ok h
    obtain ⟨-, hchanged⟩ := Prod.mk.inj (Except.ok.inj h)
    obtain ⟨hnone, rfl⟩ := Bool.or_eq_false_iff.mp hchanged
    rw [Option.isSome_eq_false_iff, Option.isNone_iff_eq_none] at hnone
    exact List.forall_mem_cons.mpr ⟨hnone ▸ ha, ih has⟩

theorem unchanged_of_operands {make : List Expr → Faulty Expr}
    (h : (do let (as', changed) ← simplifyAll rules as; if changed then some <$> make as' else return none) =
      Except.ok (none : Option Expr)) : ∀ a ∈ as, simplifyOnce rules a = .ok none := by
  obtain ⟨⟨as', changed⟩, has, h⟩ := of_bind_eq_ok h
  cases changed with
  | false => exact forall_of_simplifyAll has
  | true =>
    change some <$> make as' = _ at h
    cases hmake : make as' <;> rw [hmake] at h <;> cases h

theorem applyRules_of_bind {k : Option Expr → Faulty (Option Expr)} (h : (applyRules rules e >>= k) = .ok none)
    (hsome : ∀ x, k (some x) ≠ .ok none) : applyRules rules e = .ok none ∧ k none = .ok none := by
  obtain ⟨res, hres, h⟩ := of_bind_eq_ok h
  cases res with
  | none => exact ⟨hres, h⟩
  | some x => exact absurd h (hsome x)

/-- Where a round changes nothing, no rule matches what is shown. -/
theorem unmatched_of_simplifyOnce (hleaf : ∀ e, (∀ o as, e ≠ .op o as) → Unmatched rules e)
    (h : simplifyOnce rules e = .ok none) (hs : Shown s e) : Unmatched rules s := by
  induction hs with
  | self =>
    cases s with
    | op o as =>
      rw [simplifyOnce] at h
      exact unmatched_of_applyRules (applyRules_of_bind h nofun).1
    | _ => exact hleaf _ nofun
  | op ha _ ih =>
    rw [simplifyOnce] at h
    exact ih (unchanged_of_operands (applyRules_of_bind h nofun).2 _ ha)
  | special ha _ ih =>
    rw [simplifyOnce] at h
    exact ih (unchanged_of_operands (applyRules_of_bind h nofun).2 _ ha)
  | bits ha _ ih =>
    rw [simplifyOnce] at h
    obtain ⟨f', hf, h⟩ := of_bind_eq_ok (applyRules_of_bind h nofun).2
    obtain ⟨l', hl, h⟩ := of_bind_eq_ok h
    obtain ⟨x', hx, h⟩ := of_bind_eq_ok h
    cases f' <;> cases l' <;> cases x' <;> cases h
    rcases ha with rfl | rfl | rfl
    · exact ih hx
    · exact ih hf
    · exact ih hl
  | cond ha _ ih =>
    rw [simplifyOnce] at h
    obtain ⟨c', -, h⟩ := of_bind_eq_ok (applyRules_of_bind h nofun).2
    obtain ⟨t', ht, h⟩ := of_bind_eq_ok h
    obtain ⟨f', hf, h⟩ := of_bind_eq_ok h
    cases t' <;> cases f' <;> cases h
    rcases ha with rfl | rfl
    · exact ih ht
    · exact ih hf

theorem unmatched_inequalities (h : ∀ o as, e ≠ .op o as) : Unmatched Rule.inequalities e := by
  simp only [Unmatched, Rule.inequalities, List.forall_mem_cons]
  cases e with
  | op o as => exact absurd rfl (h o as)
  | _ => exact ⟨rfl, rfl, rfl, rfl, rfl, nofun⟩

theorem simplifyOnce_of_rounds (h : simplifyRounds rules n e = .ok e') : simplifyOnce rules e' = .ok none := by
  induction n generalizing e with
  | zero =>
    rw [simplifyRounds] at h
    cases h
  | succ n ih =>
    rw [simplifyRounds] at h
    obtain ⟨res, hres, h⟩ := of_bind_eq_ok h
    cases res with
    | some x => exact ih h
    | none =>
      dsimp only at h
      split at h
      · rw [simplifyRounds] at h
        cases h
      · exact Except.ok.inj h ▸ hres

/-- **Simplified forms.** In what simplification returns, no rule matches what stands outside of
conditions and addresses. -/
theorem simplify_unmatched (h : e.simplify = .ok e') (hs : Shown s e') : Unmatched Rule.inequalities s :=
  unmatched_of_simplifyOnce (fun _ => unmatched_inequalities) (simplifyOnce_of_rounds h) hs

/-- A comparison in a branch is simplified, and none is left there. -/
theorem simplify_branch :
    let eax : Expr := .var ⟨0, "eax", 32⟩
    let ebx : Expr := .var ⟨1, "ebx", 32⟩
    let r : Expr := .op .lessOrEqual [eax, ebx]
    (Expr.cond r (.op .or [.op .less [eax, ebx], .op .equal [eax, ebx]]) ff).simplify = .ok (.cond r r ff) ∧
      Unmatched Rule.inequalities r := by
  intro eax ebx r
  have hr : (Expr.cond r (.op .or [.op .less [eax, ebx], .op .equal [eax, ebx]]) ff).simplify = .ok (.cond r r ff) := by cbv
  exact ⟨hr, simplify_unmatched hr (.cond (.inl rfl) .self)⟩

/-- The same comparison in a condition is left as it is. -/
theorem simplify_condition :
    let eax : Expr := .var ⟨0, "eax", 32⟩
    let ebx : Expr := .var ⟨1, "ebx", 32⟩
    let c : Expr := .op .or [.op .less [eax, ebx], .op .equal [eax, ebx]]
    (Expr.cond c eax ebx).simplify = .ok (.cond c eax ebx) ∧ ¬Unmatched Rule.inequalities c := by
  intro eax ebx c
  refine ⟨by cbv, fun h => ?_⟩
  have hnone := h Rule.lessOrEqual List.mem_cons_self
  cbv at hnone
  cases hnone

end Expr

end FlowRecovery
