import FlowRecovery.Analysis.Exploration
import FlowRecovery.Proofs.Container.FifoSet

/-!
# What was reached and what waits

The states of an exploration are told apart by an equality of their own, which the labels respect
(`LawfulLocated`). Under it, `Reached` and `Waiting` are sets: the lemmas below say what belongs to
them after each operation, and that `Waiting.pick?` is one of the ways to pick a state (`Picks`).
-/

namespace FlowRecovery

/-- Descriptions are compared by their equality, and equal ones are at one label. -/
class LawfulLocated (S : Type) [Located S] [BEq S] : Prop where
  same_eq (s t : S) : Located.same s t = (s == t)
  location_eq {s t : S} (h : (s == t) = true) : Located.location s = Located.location t

/-! ### Reached states -/

namespace Reached

variable {S : Type} [Located S]

def Valid (r : Reached S) : Prop := ∀ l, ∀ s ∈ r.at_ l, Located.location s = l

theorem valid_empty : ({} : Reached S).Valid := by
  intro l s hs
  simp [at_] at hs

theorem contains_empty (s : S) : ({} : Reached S).contains s = false := by
  simp [contains, at_]

theorem at_insert_self (r : Reached S) (s : S) (ss : List S) (n : Nat) (l : Label) :
    (Reached.mk (r.table.insert (Located.location s) ss) n).at_ l =
      if Located.location s = l then ss else r.at_ l := by
  unfold at_
  rw [Std.HashMap.getElem?_insert]
  by_cases h : Located.location s = l
  · simp [h]
  · simp [h]

variable {r : Reached S}

theorem at_insert_of_not_contains {s : S} (h : r.contains s = false) :
    (r.insert s).at_ (Located.location s) = r.at_ (Located.location s) ++ [s] := by
  rw [insert, h, if_neg Bool.false_ne_true, at_insert_self, if_pos rfl]

theorem valid_insert (h : r.Valid) (s : S) : (r.insert s).Valid := by
  unfold insert
  split
  · exact h
  · intro l t ht
    rw [at_insert_self] at ht
    split at ht
    -- the list at the label of `s`: older states and `s` itself
    · next hl =>
      rcases List.mem_append.mp ht with ht | ht
      · exact (h _ t ht).trans hl
      · rw [List.mem_singleton.mp ht]
        exact hl
    · exact h l t ht

theorem valid_erase (h : r.Valid) (s : S) : (r.erase s).Valid := by
  unfold erase
  split
  · intro l t ht
    rw [at_insert_self] at ht
    split at ht
    · next hl => exact (h _ t (List.mem_filter.mp ht).1).trans hl
    · exact h l t ht
  · exact h

variable [BEq S] [EquivBEq S] [LawfulLocated S]

theorem same_eq (s : S) : Located.same s = (· == s) := funext fun t => (LawfulLocated.same_eq s t).trans BEq.comm

theorem contains_eq_any (r : Reached S) (s : S) : r.contains s = (r.at_ (Located.location s)).any (· == s) := by
  rw [contains, same_eq]

theorem contains_congr (r : Reached S) {s t : S} (h : (s == t)) : r.contains s = r.contains t := by
  rw [contains_eq_any, contains_eq_any, LawfulLocated.location_eq h]
  exact List.any_congr rfl fun u => BEq.congr_right h

theorem contains_insert (r : Reached S) (s t : S) : (r.insert s).contains t = (s == t || r.contains t) := by
  unfold insert
  split
  · next hs => rw [or_of_contains (contains_congr r) hs]
  · rw [contains_eq_any, at_insert_self, contains_eq_any]
    split
    · next hl =>
      rw [List.any_append, hl, Bool.or_comm]
      simp
    · next hl =>
      have hst : (s == t) = false := Bool.eq_false_iff.mpr fun h => hl (LawfulLocated.location_eq h)
      rw [hst, Bool.false_or]

theorem contains_erase (r : Reached S) (s t : S) : (r.erase s).contains t = (r.contains t && !(s == t)) := by
  unfold erase
  split
  · rw [contains_eq_any, at_insert_self, contains_eq_any]
    split
    · next hl =>
      -- at the label of `s`: all states equal to `s` are filtered out
      rw [same_eq, hl, any_filter_ne]
    · next hl =>
      -- at another label, where no state equals `s`
      have hst : (s == t) = false := Bool.eq_false_iff.mpr fun h => hl (LawfulLocated.location_eq h)
      simp [hst]
  · next hout =>
    by_cases hst : (s == t)
    · rw [← contains_congr r hst, Bool.eq_false_iff.mpr hout]
      rfl
    · simp [hst]

end Reached

/-! ### Waiting states -/

namespace Waiting

variable {S : Type} [BEq S] [Hashable S]

def contains (w : Waiting S) (s : S) : Bool := w.urgent.contains s || w.ordinary.contains s

def Valid (w : Waiting S) : Prop := w.urgent.Valid ∧ w.ordinary.Valid

theorem valid_empty : ({} : Waiting S).Valid := ⟨FifoSet.valid_empty, FifoSet.valid_empty⟩

variable [EquivBEq S] [LawfulHashable S] {w : Waiting S}

theorem valid_insert (h : w.Valid) (isUrgent : Bool) (s : S) : (w.insert isUrgent s).Valid := by
  unfold insert
  split
  · exact ⟨FifoSet.valid_insert h.1 s, h.2⟩
  · split
    · exact h
    · exact ⟨h.1, FifoSet.valid_insert h.2 s⟩

theorem contains_insert (h : w.Valid) (isUrgent : Bool) (s t : S) :
    (w.insert isUrgent s).contains t = (s == t || w.contains t) := by
  unfold insert contains
  split
  · rw [FifoSet.contains_insert h.1, Bool.or_assoc]
  · split
    · next hs =>
      -- an ordinary state that is urgent already is not added a second time
      rw [← Bool.or_assoc, or_of_contains (f := w.urgent.contains) (FifoStore.contains_congr _) hs]
    · rw [FifoSet.contains_insert h.2]
      cases w.urgent.contains t <;> cases s == t <;> rfl

theorem valid_erase (h : w.Valid) (s : S) : (w.erase s).Valid :=
  ⟨FifoSet.valid_erase h.1 s, FifoSet.valid_erase h.2 s⟩

theorem contains_erase (h : w.Valid) (s t : S) : (w.erase s).contains t = (w.contains t && !(s == t)) := by
  unfold erase contains
  rw [FifoSet.contains_erase h.1, FifoSet.contains_erase h.2, Bool.and_or_distrib_right]

theorem contains_of_isEmpty (h : w.Valid) (hempty : w.isEmpty) (s : S) : w.contains s = false := by
  simp only [isEmpty, Bool.and_eq_true, beq_iff_eq] at hempty
  unfold contains
  rw [FifoSet.contains_of_size_eq_zero h.1 hempty.1, FifoSet.contains_of_size_eq_zero h.2 hempty.2]
  rfl

end Waiting

/-- A way to pick a state that waits: one is picked unless none waits, and all others go on waiting.
-/
structure Picks {W S P : Type} [BEq S] [Hashable S] (pick? : Exploration W S P → Option (S × Waiting S)) : Prop where
  isEmpty_of_none {x : Exploration W S P} (hx : x.waiting.Valid) (h : pick? x = none) : x.waiting.isEmpty = true
  contains_of_some {x : Exploration W S P} {s : S} {w : Waiting S} (hx : x.waiting.Valid)
    (h : pick? x = some (s, w)) : x.waiting.contains s = true
  valid_of_some {x : Exploration W S P} {s : S} {w : Waiting S} (hx : x.waiting.Valid)
    (h : pick? x = some (s, w)) : w.Valid
  rest_of_some {x : Exploration W S P} {s : S} {w : Waiting S} (hx : x.waiting.Valid)
    (h : pick? x = some (s, w)) {t : S} (ht : x.waiting.contains t = true) : (s == t) = true ∨ w.contains t = true

namespace Waiting

variable {W S P : Type} [BEq S] [Hashable S] [EquivBEq S] [LawfulHashable S]

omit [EquivBEq S] [LawfulHashable S] in
theorem pick?_eq_none {w : Waiting S} (h : w.pick? = none) : w.isEmpty := by
  unfold pick? at h
  split at h
  · cases h
  · next hurgent =>
    rw [isEmpty, FifoSet.pop?_eq_none hurgent, FifoSet.pop?_eq_none (Option.map_eq_none_iff.mp h)]
    rfl

theorem pick?_eq_some {w w' : Waiting S} {s : S} (hw : w.Valid) (h : w.pick? = some (s, w')) :
    (w.urgent.contains s ∧ w' = { w with urgent := w.urgent.erase s }) ∨
    (w.ordinary.contains s ∧ w' = { w with ordinary := w.ordinary.erase s }) := by
  unfold pick? at h
  split at h
  · next hurgent =>
    cases Option.some.inj h
    obtain ⟨hs, rfl⟩ := FifoSet.pop?_eq_some hw.1 hurgent
    exact .inl ⟨hs, rfl⟩
  · obtain ⟨⟨t, ordinary⟩, hordinary, heq⟩ := Option.map_eq_some_iff.mp h
    cases heq
    obtain ⟨hs, rfl⟩ := FifoSet.pop?_eq_some hw.2 hordinary
    exact .inr ⟨hs, rfl⟩

theorem picks_pick? : Picks (fun x : Exploration W S P => x.waiting.pick?) where
  isEmpty_of_none _ h := pick?_eq_none h
  contains_of_some hx h := by
    rcases pick?_eq_some hx h with ⟨hs, -⟩ | ⟨hs, -⟩
    · rw [contains, hs, Bool.true_or]
    · rw [contains, hs, Bool.or_true]
  valid_of_some hx h := by
    rcases pick?_eq_some hx h with ⟨-, rfl⟩ | ⟨-, rfl⟩
    · exact ⟨FifoSet.valid_erase hx.1 _, hx.2⟩
    · exact ⟨hx.1, FifoSet.valid_erase hx.2 _⟩
  rest_of_some {x s w} hx h {t} ht := by
    by_cases hst : (s == t)
    · exact .inl hst
    · refine .inr ?_
      rcases pick?_eq_some hx h with ⟨-, rfl⟩ | ⟨-, rfl⟩
      · simpa [contains, FifoSet.contains_erase hx.1, hst] using ht
      · simpa [contains, FifoSet.contains_erase hx.2, hst] using ht

end Waiting

end FlowRecovery
