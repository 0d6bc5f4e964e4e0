import Mathlib
import FlowRecovery.Container.PairMap

/-!
# Entries of maps with two keys

What `PairMap.find?` gives after each change of a map, as one equation per change: an insertion is
seen at its own pair of keys only (`find?_insert`), an erasure removes what it names and nothing
else (`find?_erase`, `find?_eraseRow`, `find?_filterRow`). The entries of a row are those that are
found in it (`mem_rowList`).
-/

namespace FlowRecovery.PairMap

open Std

variable {K L V : Type} [BEq K] [Ord L]

variable (m : PairMap K L V) (k k' : K)

private theorem find?_thinned [DecidableEq K] {n : PairMap K L V} {l : L} {p : Prop} [Decidable p]
    (hsame : n.find? k l = if p then none else m.find? k l) (hother : k' ≠ k → n.find? k' l = m.find? k' l) :
    n.find? k' l = if k' = k ∧ p then none else m.find? k' l := by
  by_cases hk : k' = k
  · subst hk
    simpa using hsame
  · rw [hother hk, if_neg (fun h => hk h.1)]

section Rows

variable [LawfulBEq K] [DecidableEq K]

omit [Ord L] in
private theorem lookup_cons_if (p : K × V) (rest : List (K × V)) (k : K) :
    (p :: rest).lookup k = if k = p.1 then some p.2 else rest.lookup k := by
  rw [List.lookup_cons]
  by_cases h : k = p.1
  · rw [if_pos h, beq_iff_eq.mpr h]
  · rw [if_neg h, beq_eq_false_iff_ne.mpr h]

theorem lookup_setRow (rows : List (K × TreeMap L V)) (k k' : K) (r : TreeMap L V) :
    (setRow rows k r).lookup k' = if k' = k then some r else rows.lookup k' := by
  induction rows with
  | nil => rw [setRow, lookup_cons_if]
  | cons p rest ih =>
    rw [setRow]
    by_cases hk : k = p.1
    · -- the row is replaced in place
      rw [if_pos (beq_iff_eq.mpr hk), lookup_cons_if, lookup_cons_if, hk]
      by_cases h : k' = p.1 <;> simp [h]
    · rw [if_neg (mt beq_iff_eq.mp hk), lookup_cons_if, lookup_cons_if, ih]
      by_cases h : k' = p.1 <;> simp [h, Ne.symm hk]

omit [Ord L] in
theorem lookup_filter_ne (rows : List (K × V)) (k k' : K) :
    (rows.filter (fun p => !(k == p.1))).lookup k' = if k' = k then none else rows.lookup k' := by
  induction rows with
  | nil => simp
  | cons p rest ih =>
    by_cases hk : k = p.1
    · rw [List.filter_cons_of_neg (by simpa using hk), ih, lookup_cons_if, hk]
      by_cases h : k' = p.1 <;> simp [h]
    · rw [List.filter_cons_of_pos (by simpa using hk), lookup_cons_if, lookup_cons_if, ih]
      by_cases h : k' = p.1 <;> simp [h, Ne.symm hk]

theorem find?_eraseRow (l : L) : (m.eraseRow k).find? k' l = if k' = k then none else m.find? k' l := by
  unfold find? row? eraseRow
  rw [lookup_filter_ne]
  by_cases hk : k' = k <;> simp [hk]

theorem find?_setRow (r : TreeMap L V) (l : L) :
    (PairMap.mk (setRow m.rows k r)).find? k' l = if k' = k then r[l]? else m.find? k' l := by
  unfold find? row?
  rw [lookup_setRow]
  by_cases hk : k' = k <;> simp [hk]

end Rows

theorem mem_rowList [TransOrd L] [LawfulEqOrd L] (k : K) (l : L) (v : V) :
    (l, v) ∈ m.rowList k ↔ m.find? k l = some v := by
  unfold rowList find?
  cases m.row? k with
  | none => simp
  | some r => simp [TreeMap.mem_toList_iff_getElem?_eq_some]

theorem exists_row_of_find? [LawfulBEq K] [TransOrd L] [LawfulEqOrd L] {m : PairMap K L V} {k : K} {l : L} {v : V}
    (h : m.find? k l = some v) : ∃ r, (k, r) ∈ m.rows ∧ (l, v) ∈ r.toList := by
  obtain ⟨r, hr, hv⟩ := Option.bind_eq_some_iff.mp h
  obtain ⟨before, after, hrows, -⟩ := List.lookup_eq_some_iff.mp hr
  refine ⟨r, ?_, TreeMap.mem_toList_iff_getElem?_eq_some.mpr hv⟩
  rw [hrows]
  exact List.mem_append_right before List.mem_cons_self

variable [LawfulBEq K] [DecidableEq K] [TransOrd L] [LawfulEqOrd L] [DecidableEq L]

theorem find?_insert (l l' : L) (v : V) :
    (m.insert k l v).find? k' l' = if k' = k ∧ l' = l then some v else m.find? k' l' := by
  rw [insert, find?_setRow]
  by_cases hk : k' = k
  · subst hk
    rw [if_pos rfl, TreeMap.getElem?_insert]
    simp only [LawfulEqCmp.compare_eq_iff_eq, true_and]
    by_cases hl : l' = l
    · simp [hl]
    · rw [if_neg (Ne.symm hl), if_neg hl, find?]
      cases m.row? k' <;> simp
  · rw [if_neg hk, if_neg (fun h => hk h.1)]

private theorem getElem?_erase_if (r : TreeMap L V) (l l' : L) :
    (r.erase l)[l']? = if l' = l then none else r[l']? := by
  rw [TreeMap.getElem?_erase]
  simp only [LawfulEqCmp.compare_eq_iff_eq]
  by_cases hl : l' = l
  · simp [hl]
  · rw [if_neg (Ne.symm hl), if_neg hl]

theorem find?_erase (l l' : L) : (m.erase k l).find? k' l' = if k' = k ∧ l' = l then none else m.find? k' l' := by
  rw [erase]
  cases hr : m.row? k with
  | none => exact find?_thinned m k k' (by simp [find?, hr]) (fun _ => rfl)
  | some r =>
    dsimp only
    refine find?_thinned m k k' ?_ fun hk => ?_
    · have hrow : m.find? k l' = r[l']? := by rw [find?, hr, Option.bind_some]
      rw [hrow, ← getElem?_erase_if]
      split
      -- the row has no other entry, so that nothing else is lost with it
      · next hempty => rw [find?_eraseRow, if_pos rfl, TreeMap.getElem?_of_isEmpty hempty]
      · rw [find?_setRow, if_pos rfl]
    · split
      · rw [find?_eraseRow, if_neg hk]
      · rw [find?_setRow, if_neg hk]

omit [DecidableEq L] in
theorem find?_filterRow (p : L → Bool) (l : L) :
    (m.filterRow k p).find? k' l = if k' = k ∧ p l = false then none else m.find? k' l := by
  rw [filterRow]
  cases hr : m.row? k with
  | none => exact find?_thinned m k k' (by simp [find?, hr]) (fun _ => rfl)
  | some r =>
    refine find?_thinned m k k' ?_ fun hk => ?_
    · rw [find?_setRow, if_pos rfl, find?, hr, Option.bind_some, TreeMap.getElem?_filter']
      cases p l with
      | true => cases r[l]? <;> simp
      | false => simp
    · rw [find?_setRow, if_neg hk]

end FlowRecovery.PairMap
