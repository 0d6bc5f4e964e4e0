import Mathlib
import FlowRecovery.Fault

/-!
# Runs of operations that may fail

`FaultyM.Ends a w r w'` says that the operation `a`, started in `w`, ends without a fault, with the
result `r` and in `w'`; `FaultyM.Fails a w f w'` says that it stops with the fault `f` and in `w'`.
The lemmas below take such a run apart along the way the operation was put together, so that proofs
about operations never look at the monad itself:

* `ends_bind`: a run of two operations is a run of the first and one of the second;
* `fails_bind`: two operations fail if the first does, or if it ends and the second fails;
* `ends_focus`: an operation on a part of a state leaves all else alone;
* `ends_forM_cons`, `ends_mapM_cons`: a run over a list is a run for its head and one for its tail.
-/

namespace FlowRecovery

variable {S T : Type} {k : S → Faulty T}

theorem ok_bind (s : S) : (Except.ok s >>= k) = k s := rfl

theorem of_bind_eq_ok {x : Faulty S} {t : T} (h : (x >>= k) = .ok t) : ∃ s, x = .ok s ∧ k s = .ok t := by
  cases x with
  | error e => cases h
  | ok s => exact ⟨s, rfl, h⟩

namespace FaultyM

variable {V W α β : Type}

def outcome (a : FaultyM W α) (w : W) : Except Fault α × W := a.run.run w

/-- The operation ends from `w` without a fault, with the result `r` and in `w'`. -/
def Ends (a : FaultyM W α) (w : W) (r : α) (w' : W) : Prop := a.outcome w = (.ok r, w')

/-- The operation stops from `w` with the fault `f` and in `w'`. -/
def Fails (a : FaultyM W α) (w : W) (f : Fault) (w' : W) : Prop := a.outcome w = (.error f, w')

variable {a : FaultyM W α}

theorem Ends.unique {w w₁ w₂ : W} {r₁ r₂ : α} (h₁ : a.Ends w r₁ w₁) (h₂ : a.Ends w r₂ w₂) : r₁ = r₂ ∧ w₁ = w₂ := by
  unfold Ends at h₁ h₂
  rw [h₁] at h₂
  simpa using h₂

variable {v w w' : W} {x : α} {r : PUnit} {f : α → FaultyM W β}

@[simp] theorem ends_pure {r : α} : (pure x : FaultyM W α).Ends w r w' ↔ r = x ∧ w' = w := by
  change ((Except.ok x, w) : Faulty α × W) = (.ok r, w') ↔ _
  simp [eq_comm]

theorem outcome_bind (a : FaultyM W α) (f : α → FaultyM W β) (w : W) : (a >>= f).outcome w =
      (match a.outcome w with
        | (.ok x, v) => (f x).outcome v
        | (.error e, v) => (.error e, v)) := by
  simp only [outcome, ExceptT.run_bind, StateT.run_bind]
  rcases a.run.run w with ⟨x | x, v⟩ <;> rfl

theorem Ends.outcome_bind (h : a.Ends w x v) (f : α → FaultyM W β) : (a >>= f).outcome w = (f x).outcome v := by
  rw [FaultyM.outcome_bind, h]

theorem Ends.bind_iff (h : a.Ends w x v) {r : β} : (a >>= f).Ends w r w' ↔ (f x).Ends v r w' := by
  unfold Ends
  rw [h.outcome_bind]

@[simp] theorem ends_bind {r : β} : (a >>= f).Ends w r w' ↔ ∃ x v, a.Ends w x v ∧ (f x).Ends v r w' := by
  unfold Ends
  rw [outcome_bind]
  rcases a.outcome w with ⟨x | x, v⟩
  · simp
  · constructor
    · exact fun h => ⟨x, v, rfl, h⟩
    · rintro ⟨_, _, heq, h⟩
      obtain ⟨⟨⟩, rfl⟩ := Prod.mk.inj heq
      exact h

theorem Ends.pure : (Pure.pure x : FaultyM W α).Ends w x w := ends_pure.mpr ⟨rfl, rfl⟩

theorem Ends.bind {r : β} (h : a.Ends w x v) (hf : (f x).Ends v r w') :
    (a >>= f).Ends w r w' := ends_bind.mpr ⟨x, v, h, hf⟩

theorem fails_bind {e : Fault} :
    (a >>= f).Fails w e w' ↔ a.Fails w e w' ∨ ∃ x v, a.Ends w x v ∧ (f x).Fails v e w' := by
  unfold Fails Ends
  rw [outcome_bind]
  rcases a.outcome w with ⟨x | x, v⟩
  · simp
  · constructor
    · exact fun h => .inr ⟨x, v, rfl, h⟩
    · rintro (h | ⟨_, _, heq, h⟩)
      · cases h
      · obtain ⟨⟨⟩, rfl⟩ := Prod.mk.inj heq
        exact h

@[simp] theorem fails_throw {e f : Fault} : (throw e : FaultyM W α).Fails w f w' ↔ f = e ∧ w' = w := by
  change ((Except.error e, w) : Faulty α × W) = (.error f, w') ↔ _
  simp [eq_comm]

@[simp] theorem ends_get {r : W} : (get : FaultyM W W).Ends w r w' ↔ r = w ∧ w' = w := by
  change ((Except.ok w, w) : Faulty W × W) = (.ok r, w') ↔ _
  simp [eq_comm]

@[simp] theorem ends_set : (set v : FaultyM W PUnit).Ends w r w' ↔ w' = v := by
  change ((Except.ok ⟨⟩, v) : Faulty PUnit × W) = (.ok r, w') ↔ _
  simp [eq_comm]

@[simp] theorem ends_modify {f : W → W} : (modify f : FaultyM W PUnit).Ends w r w' ↔ w' = f w := by
  change ((Except.ok ⟨⟩, f w) : Faulty PUnit × W) = (.ok r, w') ↔ _
  simp [eq_comm]

theorem ends_get_bind {f : W → FaultyM W β} {r : β} : (get >>= f).Ends w r w' ↔ (f w).Ends w r w' :=
  (ends_get.mpr ⟨rfl, rfl⟩).bind_iff

theorem ends_set_bind {f : PUnit → FaultyM W β} {r : β} :
    ((set v : FaultyM W PUnit) >>= f).Ends w r w' ↔ (f ⟨⟩).Ends v r w' := (ends_set.mpr rfl).bind_iff

theorem ends_modify_bind {f : W → W} {g : PUnit → FaultyM W β} {r : β} :
    ((modify f : FaultyM W PUnit) >>= g).Ends w r w' ↔ (g ⟨⟩).Ends (f w) r w' := (ends_modify.mpr rfl).bind_iff

@[simp] theorem not_ends_throw {f : Fault} {r : α} : ¬(throw f : FaultyM W α).Ends w r w' := by
  change ¬((Except.error f, w) : Faulty α × W) = (.ok r, w')
  simp

@[simp] theorem ends_lift {a : Faulty α} {r : α} : (liftM a : FaultyM W α).Ends w r w' ↔ a = .ok r ∧ w' = w := by
  change ((a, w) : Faulty α × W) = (.ok r, w') ↔ _
  simp [eq_comm]

theorem Ends.lift {a : Faulty α} {r : β} (ha : a = .ok x)
    (h : (f x).Ends w r w') : ((liftM a : FaultyM W α) >>= f).Ends w r w' := .bind (ends_lift.mpr ⟨ha, rfl⟩) h

@[simp] theorem ends_focus {part : W → V} {put : V → W → W} {a : FaultyM V α} {r : α} :
    (focus part put a).Ends w r w' ↔ ∃ v, a.Ends (part w) r v ∧ w' = put v w := by
  unfold Ends
  rw [focus, (ends_get.mpr ⟨rfl, rfl⟩).outcome_bind, show a.run.run (part w) = a.outcome (part w) from rfl]
  rcases a.outcome (part w) with ⟨x | x, v⟩
  · -- the part is put back even if the operation on it failed
    change ((Except.error x, put v w) : Faulty α × W) = (.ok r, w') ↔ _
    simp
  · change ((Except.ok x, put v w) : Faulty α × W) = (.ok r, w') ↔ _
    simp only [Prod.mk.injEq, Except.ok.injEq]
    constructor
    · rintro ⟨rfl, rfl⟩
      exact ⟨v, ⟨rfl, rfl⟩, rfl⟩
    · rintro ⟨_, ⟨rfl, rfl⟩, rfl⟩
      exact ⟨rfl, rfl⟩

/-! ### Runs over lists -/

@[simp] theorem ends_forM_nil {f : α → FaultyM W PUnit} : (([] : List α).forM f).Ends w r w' ↔ w' = w := by
  change (pure ⟨⟩ : FaultyM W PUnit).Ends w r w' ↔ _
  simp

@[simp] theorem ends_forM_cons {f : α → FaultyM W PUnit} {xs : List α} :
    ((x :: xs).forM f).Ends w r w' ↔ ∃ v, (f x).Ends w ⟨⟩ v ∧ (xs.forM f).Ends v r w' := by
  change (f x >>= fun _ => xs.forM f).Ends w r w' ↔ _
  rw [ends_bind]
  exact ⟨fun ⟨_, v, hx, hxs⟩ => ⟨v, hx, hxs⟩, fun ⟨v, hx, hxs⟩ => ⟨⟨⟩, v, hx, hxs⟩⟩

theorem ends_forM_foldl {f : α → FaultyM W PUnit} {g : W → α → W} (h : ∀ x w, (f x).Ends w ⟨⟩ (g w x)) (xs : List α)
    (w : W) : (xs.forM f).Ends w ⟨⟩ (xs.foldl g w) := by
  induction xs generalizing w with
  | nil => exact ends_forM_nil.mpr rfl
  | cons x xs ih => exact ends_forM_cons.mpr ⟨g w x, h x w, ih (g w x)⟩

@[simp] theorem ends_mapM_nil {r : List β} : (([] : List α).mapM f).Ends w r w' ↔ r = [] ∧ w' = w := by
  simp

theorem ends_mapM_cons {xs : List α} {r : List β} : ((x :: xs).mapM f).Ends w r w' ↔
      ∃ y v ys, (f x).Ends w y v ∧ (xs.mapM f).Ends v ys w' ∧ r = y :: ys := by
  rw [List.mapM_cons]
  constructor
  · intro h
    obtain ⟨y, v, hy, h⟩ := ends_bind.mp h
    obtain ⟨ys, u, hys, h⟩ := ends_bind.mp h
    obtain ⟨rfl, rfl⟩ := ends_pure.mp h
    exact ⟨y, v, ys, hy, hys, rfl⟩
  · rintro ⟨y, v, ys, hy, hys, rfl⟩
    exact .bind hy (.bind hys .pure)

end FaultyM

end FlowRecovery
