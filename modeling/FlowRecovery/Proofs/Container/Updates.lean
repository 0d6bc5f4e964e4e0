import FlowRecovery.Proofs.Container.Rows

/-!
# Maps with two keys as finite maps

After any changes, a `PairMap` has the entries of the finite map with the same changes, each of them
once (`entries_foldl_perform`). `insertAll` counts as no change: it puts in what is there already.
-/

namespace FlowRecovery.PairMap

open List

variable {K L V : Type} [BEq K] [LawfulBEq K] [DecidableEq K] [Ord L] [Std.TransOrd L] [Std.LawfulEqOrd L] [DecidableEq L]

inductive Change (K L V : Type) [Ord L] where
  | insert (k : K) (l : L) (v : V)
  | insertAll (other : PairMap K L V)
  | erase (k : K) (l : L)
  | eraseRow (k : K)
  | clear

def Change.perform (m : PairMap K L V) : Change K L V → PairMap K L V
  | insert k l v => m.insert k l v
  | insertAll other => m.insertAll other
  | erase k l => m.erase k l
  | eraseRow k => m.eraseRow k
  | clear => empty

/-- What a change makes of a finite map. -/
def Change.update (f : K → L → Option V) : Change K L V → K → L → Option V
  | insert k l v, k', l' => if k' = k ∧ l' = l then some v else f k' l'
  | insertAll _, k', l' => f k' l'
  | erase k l, k', l' => if k' = k ∧ l' = l then none else f k' l'
  | eraseRow k, k', l' => if k' = k then none else f k' l'
  | clear, _, _ => none

variable {m : PairMap K L V}

section Listed

omit [DecidableEq K] [DecidableEq L]

theorem mem_toList (h : m.Keyed) (k : K) (l : L) (v : V) : (k, l, v) ∈ m.toList ↔ m.find? k l = some v := by
  rw [toList, mem_flatMap]
  constructor
  · rintro ⟨⟨k', r⟩, hr, hv⟩
    obtain ⟨e, he, heq⟩ := mem_map.mp hv
    cases heq
    rw [← h.getElem?_of_mem hr]
    exact Std.TreeMap.mem_toList_iff_getElem?_eq_some.mp he
  · intro hv
    obtain ⟨r, hr, he⟩ := exists_row_of_find? hv
    exact ⟨_, hr, mem_map.mpr ⟨_, he, rfl⟩⟩

omit [BEq K] [LawfulBEq K] [Std.LawfulEqOrd L] in
theorem Keyed.nodup_toList (h : m.Keyed) : (m.toList.map fun e => (e.1, e.2.1)).Nodup := by
  rw [toList, map_flatMap, nodup_flatMap]
  refine ⟨fun p _ => ?_, (pairwise_map.mp h).imp fun {p q} hne => ?_⟩
  · -- within a row the right keys are ordered
    rw [map_map]
    refine List.Nodup.of_map Prod.snd ?_
    rw [map_map]
    exact p.2.map_fst_toList_eq_keys ▸ p.2.nodup_keys
  · intro e hp hq
    simp only [map_map, mem_map, Function.comp] at hp hq
    obtain ⟨x, -, rfl⟩ := hp
    obtain ⟨y, -, heq⟩ := hq
    exact hne (congrArg Prod.fst heq).symm

omit [BEq K] [LawfulBEq K] [Std.TransOrd L] [Std.LawfulEqOrd L] in
theorem length_toList (m : PairMap K L V) : m.toList.length = m.size := by
  rw [size_eq_listing, toList, listing, length_flatMap, map_map]
  simp only [Function.comp_def, length_map]

end Listed

theorem find?_insertAll (h : m.Keyed) (other : PairMap K L V) :
    (m.insertAll other).Keyed ∧ ∀ k l, (m.insertAll other).find? k l = m.find? k l := by
  rw [insertAll]
  refine foldlRecOn (motive := fun n : PairMap K L V => n.Keyed ∧ ∀ k l, n.find? k l = m.find? k l) m.toList _
    ⟨h, fun _ _ => rfl⟩ fun n hn e he => ⟨hn.1.setRow _ _, fun k l => ?_⟩
  have hfound := (mem_toList h e.1 e.2.1 e.2.2).mp he
  refine (find?_insert n ..).trans ?_
  split
  · next heq => rw [heq.1, heq.2, hfound]
  · exact hn.2 k l

theorem Keyed.perform (h : m.Keyed) (c : Change K L V) :
    (c.perform m).Keyed ∧ ∀ k l, (c.perform m).find? k l = c.update m.find? k l := by
  cases c with
  | insert k l v => exact ⟨h.setRow _ _, fun k' l' => find?_insert m k k' l l' v⟩
  | insertAll other => exact find?_insertAll h other
  | erase k l =>
    refine ⟨?_, fun k' l' => find?_erase m k k' l l'⟩
    rw [Change.perform, erase]
    cases m.row? k with
    | none => exact h
    | some r =>
      dsimp only
      split
      · exact h.eraseRow k
      · exact h.setRow _ _
  | eraseRow k => exact ⟨h.eraseRow k, fun k' l' => find?_eraseRow m k k' l'⟩
  | clear => exact ⟨nodup_nil, fun _ _ => rfl⟩

theorem Keyed.foldl_perform (h : m.Keyed) (cs : List (Change K L V)) :
    (cs.foldl Change.perform m).Keyed ∧ (cs.foldl Change.perform m).find? = cs.foldl Change.update m.find? := by
  induction cs generalizing m with
  | nil => exact ⟨h, rfl⟩
  | cons c cs ih =>
    obtain ⟨hkeyed, hfind⟩ := h.perform c
    have := ih hkeyed
    rwa [(funext fun k => funext (hfind k) : (c.perform m).find? = c.update m.find?)] at this

/-- **A map with two keys is a finite map.** After any changes it has the entries of the finite map
that was changed alike, and lists each of them once. -/
theorem entries_foldl_perform (cs : List (Change K L V)) :
    let m := cs.foldl Change.perform empty
    let f := cs.foldl Change.update fun _ _ => none
    (∀ k l, m.find? k l = f k l ∧ m.contains k l = (f k l).isSome) ∧ (∀ k l v, (k, l, v) ∈ m.toList ↔ f k l = some v) ∧
      (m.toList.map fun e => (e.1, e.2.1)).Nodup ∧ m.size = m.toList.length := by
  intro m f
  obtain ⟨hkeyed, hfind⟩ : m.Keyed ∧ m.find? = f := Keyed.foldl_perform (m := empty) nodup_nil cs
  refine ⟨fun k l => ?_, fun k l v => ?_, hkeyed.nodup_toList, (length_toList m).symm⟩
  · rw [contains, hfind]
    exact ⟨rfl, rfl⟩
  · rw [mem_toList hkeyed, hfind]

/-- The entry of the other map is not added. -/
theorem entries_after_insertAll :
    let other : PairMap Nat Nat Nat := empty.insert 2 2 5
    let m := [Change.insert 1 1 4, .insertAll other].foldl Change.perform empty
    m.toList = [(1, 1, 4)] ∧ (m.toList.map fun e => (e.1, e.2.1)).Nodup := by
  intro other m
  obtain ⟨-, -, hnodup, -⟩ := entries_foldl_perform [Change.insert 1 1 4, .insertAll other]
  exact ⟨by cbv, hnodup⟩

end FlowRecovery.PairMap
