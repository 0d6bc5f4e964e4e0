import FlowRecovery.Container.MapPool
import FlowRecovery.Proofs.Container.PairMap

/-!
# Rows of maps with two keys

Two maps can hold the same entries in different rows: rows may stand in another order, and a row may
be there without entries. A map is *tidy* (`PairMap.Tidy`) if it has one row for each left key of an
entry and no other. Insertion and erasure keep maps tidy. `PairMap.filterRow` does not: it may leave
a row behind that has no entries left (`Tidy.filterRow`).

Tidy maps with the same entries have the same rows up to their order (`Tidy.listing_perm`), so they
have the same size and the same digest. A row without entries adds nothing to the size, but its key
is added to the digest.
-/

namespace FlowRecovery.PairMap

open List Std TreeMap

variable {K L V : Type} [Ord L] {m n : PairMap K L V} {k : K} {l : L}

/-- There is at most one row for a left key. -/
def Keyed (m : PairMap K L V) : Prop := (m.rows.map Prod.fst).Nodup

/-- There is one row for each left key of an entry, and no other. -/
structure Tidy (m : PairMap K L V) : Prop where
  keyed : m.Keyed
  filled : ∀ p ∈ m.rows, p.2.isEmpty = false

theorem tidy_empty : (empty : PairMap K L V).Tidy := ⟨nodup_nil, nofun⟩

/-! ### Changes of rows -/

section Changes

variable [BEq K] [LawfulBEq K]

variable {r : TreeMap L V compare}

theorem Keyed.row?_of_mem (h : m.Keyed) (hr : (k, r) ∈ m.rows) : m.row? k = some r := by
  obtain ⟨before, after, hrows⟩ := append_of_mem hr
  refine lookup_eq_some_iff.mpr ⟨before, after, hrows, fun p hp => ?_⟩
  rw [Keyed, hrows, map_append, nodup_append] at h
  simpa using (h.2.2 p.1 (mem_map_of_mem hp) k (by simp)).symm

theorem Keyed.getElem?_of_mem (h : m.Keyed) (hr : (k, r) ∈ m.rows) (l : L) : r[l]? = m.find? k l := by
  rw [find?, h.row?_of_mem hr, Option.bind_some]

theorem setRow_perm {rows : List (K × TreeMap L V)} (h : (rows.map Prod.fst).Nodup) (k : K) (r : TreeMap L V) :
    (setRow rows k r).Perm ((k, r) :: rows.filter (fun p => !(k == p.1))) := by
  induction rows with
  | nil => exact .refl _
  | cons p rest ih =>
    rw [map_cons, nodup_cons] at h
    rw [setRow]
    by_cases hk : k = p.1
    · -- no other row has the key, so that the row is replaced and the rest is kept
      have hrest : rest.filter (fun q => !(k == q.1)) = rest := by
        rw [filter_eq_self]
        intro q hq
        simpa using fun hkq => h.1 (mem_map.mpr ⟨q, hq, by rw [← hkq, hk]⟩)
      rw [if_pos (beq_iff_eq.mpr hk), filter_cons_of_neg (by simpa using hk), hrest, hk]
    · rw [if_neg (mt beq_iff_eq.mp hk), filter_cons_of_pos (by simpa using hk)]
      exact ((ih h.2).cons p).trans (.swap _ _ _)

omit [LawfulBEq K] in
theorem Keyed.eraseRow (h : m.Keyed) (k : K) : (m.eraseRow k).Keyed :=
  List.Nodup.sublist (filter_sublist.map Prod.fst) h

theorem Keyed.setRow (h : m.Keyed) (k : K) (r : TreeMap L V) : Keyed ⟨setRow m.rows k r⟩ := by
  have hperm := (setRow_perm h k r).map Prod.fst
  refine hperm.nodup_iff.mpr (nodup_cons.mpr ⟨fun hmem => ?_, h.eraseRow k⟩)
  obtain ⟨q, hq, hkey⟩ := mem_map.mp hmem
  simp [hkey] at hq

omit [LawfulBEq K] in
theorem Tidy.eraseRow (h : m.Tidy) (k : K) : (m.eraseRow k).Tidy :=
  ⟨h.keyed.eraseRow k, fun p hp => h.filled p (mem_of_mem_filter hp)⟩

theorem Tidy.setRow (h : m.Tidy) (k : K) {r : TreeMap L V} (hr : r.isEmpty = false) : Tidy ⟨setRow m.rows k r⟩ := by
  refine ⟨h.keyed.setRow k r, fun p hp => ?_⟩
  rcases mem_cons.mp ((setRow_perm h.keyed k r).mem_iff.mp hp) with rfl | hp
  · exact hr
  · exact h.filled p (mem_of_mem_filter hp)

theorem Tidy.insert [TransOrd L] (h : m.Tidy) (k : K) (l : L) (v : V) : (m.insert k l v).Tidy :=
  h.setRow k isEmpty_insert

theorem Tidy.erase (h : m.Tidy) (k : K) (l : L) : (m.erase k l).Tidy := by
  rw [PairMap.erase]
  cases m.row? k with
  | none => exact h
  | some r =>
    dsimp only
    split
    · exact h.eraseRow k
    · next hr => exact h.setRow k (Bool.eq_false_iff.mpr hr)

theorem Tidy.filterRow (h : m.Tidy) (k : K) (p : L → Bool) :
    (m.filterRow k p).Tidy ∧ ((m.filterRow k p).row? k).any TreeMap.isEmpty = false ∨
      (m.filterRow k p).Keyed ∧ ∃ r, r.isEmpty ∧ (m.filterRow k p).row? k = some r ∧
        (m.filterRow k p).rows.Perm ((k, r) :: (m.eraseRow k).rows) := by
  classical
  rw [PairMap.filterRow]
  cases hrow : m.row? k with
  | none => exact .inl ⟨h, by rw [hrow]; rfl⟩
  | some r =>
    have hafter : (PairMap.mk (PairMap.setRow m.rows k (r.filter fun l _ => p l))).row? k =
        some (r.filter fun l _ => p l) := by
      rw [row?, lookup_setRow, if_pos rfl]
    cases hr : (r.filter fun l _ => p l).isEmpty with
    | false => exact .inl ⟨h.setRow k hr, by rw [hafter, Option.any_some, hr]⟩
    | true => exact .inr ⟨h.keyed.setRow k _, _, hr, hafter, setRow_perm h.keyed k _⟩

end Changes

/-! ### Maps with the same entries -/

def listing (m : PairMap K L V) : List (K × List (L × V)) := m.rows.map (fun p => (p.1, p.2.toList))

theorem Keyed.nodup_listing (h : m.Keyed) : m.listing.Nodup := by
  refine List.Nodup.of_map Prod.fst ?_
  rwa [listing, map_map]

theorem size_eq_listing (m : PairMap K L V) : m.size = (m.listing.map (fun p => p.2.length)).sum := by
  rw [size, listing, map_map, sum_eq_foldl, foldl_map]
  simp only [Function.comp, length_toList]

theorem digest_eq_listing (left : K → UInt32) (right : L → UInt32) (value : V → UInt32) (m : PairMap K L V) :
    m.digest left right value =
      (m.listing.map (fun p => left p.1 ^^^ p.2.foldl (fun d e => d + (right e.1 ^^^ value e.2)) 0)).sum := by
  rw [digest, listing, map_map, sum_eq_foldl, foldl_map]
  rfl

section Entries

variable [BEq K] [LawfulBEq K] [TransOrd L] [LawfulEqOrd L]

section

variable (hm : m.Tidy) (hn : n.Tidy) (h : ∀ k l, m.find? k l = n.find? k l)

include hm hn h

theorem Tidy.listing_subset : m.listing ⊆ n.listing := by
  intro p hp
  obtain ⟨⟨k, r⟩, hr, rfl⟩ := mem_map.mp hp
  -- the row has an entry, which the other map must have in a row of its own
  obtain ⟨l, hl⟩ := isEmpty_eq_false_iff_exists_mem.mp (hm.filled _ hr)
  obtain ⟨v, hv⟩ := Option.isSome_iff_exists.mp (mem_iff_isSome_getElem?.mp hl)
  rw [hm.keyed.getElem?_of_mem hr, h] at hv
  obtain ⟨r', hr', -⟩ := exists_row_of_find? hv
  refine mem_map.mpr ⟨(k, r'), hr', Prod.ext rfl ?_⟩
  refine equiv_iff_toList_eq.mp (.of_forall_constGet?_eq fun l => ?_)
  rw [hn.keyed.getElem?_of_mem hr', hm.keyed.getElem?_of_mem hr, h]

theorem Tidy.listing_perm : m.listing.Perm n.listing := by
  rw [perm_ext_iff_of_nodup hm.keyed.nodup_listing hn.keyed.nodup_listing]
  exact fun p => ⟨fun hp => hm.listing_subset hn h hp, fun hp => hn.listing_subset hm (fun k l => (h k l).symm) hp⟩

end

theorem equals_of_find?_eq {eq : V → V → Bool} (heq : ∀ v, eq v v) (hm : m.Keyed) (hsize : m.size = n.size)
    (h : ∀ k l, m.find? k l = n.find? k l) : m.equals eq n := by
  rw [equals, Bool.and_eq_true, beq_iff_eq, all_eq_true]
  refine ⟨hsize, ?_⟩
  rintro ⟨k, r⟩ hr
  have hfind (l : L) : r[l]? = n.find? k l := (hm.getElem?_of_mem hr l).trans (h k l)
  dsimp only
  cases hrow : n.row? k with
  | none =>
    refine isEmpty_iff_forall_not_mem.mpr fun l => ?_
    rw [mem_iff_isSome_getElem?, hfind, find?, hrow]
    exact Bool.false_ne_true
  | some s =>
    have hget (l : L) : s[l]? = r[l]? := by rw [hfind, find?, hrow, Option.bind_some]
    have hlist : s.toList = r.toList := equiv_iff_toList_eq.mp (.of_forall_constGet?_eq hget)
    have hsizes : s.size = r.size := by rw [← length_toList, hlist, length_toList]
    refine Bool.and_eq_true_iff.mpr ⟨beq_iff_eq.mpr hsizes, all_eq_true.mpr ?_⟩
    rintro ⟨l, v⟩ he
    have hv : r[l]? = some v := mem_toList_iff_getElem?_eq_some.mp (hlist ▸ he)
    simp only [hv, heq]

/-- **A map with one row thinned out.** It equals every tidy map with the same entries. A row that
is left without entries adds its key to the digest. -/
theorem Tidy.filterRow_eq (hm : m.Tidy) (hn : n.Tidy) {p : L → Bool}
    (h : ∀ k' l, (m.filterRow k p).find? k' l = n.find? k' l) :
    (∀ eq : V → V → Bool, (∀ v, eq v v) → (m.filterRow k p).equals eq n) ∧
      ∀ (left : K → UInt32) (right : L → UInt32) (value : V → UInt32), (m.filterRow k p).digest left right value =
        n.digest left right value + if ((m.filterRow k p).row? k).any TreeMap.isEmpty then left k else 0 := by
  classical
  obtain ⟨hkeyed, hlisting⟩ : (m.filterRow k p).Keyed ∧ (m.filterRow k p).listing.Perm
      ((if ((m.filterRow k p).row? k).any TreeMap.isEmpty then [(k, [])] else []) ++ n.listing) := by
    rcases hm.filterRow k p with ⟨htidy, hrow⟩ | ⟨hkeyed, r, hr, hrow, hperm⟩
    · rw [hrow]
      exact ⟨htidy.keyed, htidy.listing_perm hn h⟩
    · have hrest (k' : K) (l : L) : (m.eraseRow k).find? k' l = n.find? k' l := by
        rw [← h, find?_eraseRow]
        by_cases hk : k' = k
        · rw [if_pos hk, hk, find?, hrow, Option.bind_some, getElem?_of_isEmpty hr]
        · rw [if_neg hk, find?_filterRow, if_neg fun hboth => hk hboth.1]
      have hnil : r.toList = [] := isEmpty_iff.mp (isEmpty_toList.trans hr)
      refine ⟨hkeyed, (hperm.map _).trans ?_⟩
      rw [hrow, Option.any_some, hr, map_cons, hnil]
      exact ((hm.eraseRow k).listing_perm hn hrest).cons _
  refine ⟨fun eq heq => equals_of_find?_eq heq hkeyed ?_ h, fun left right value => ?_⟩
  · rw [size_eq_listing, size_eq_listing, (hlisting.map _).sum_eq]
    split <;> simp
  · rw [digest_eq_listing, digest_eq_listing, (hlisting.map _).sum_eq]
    split <;> simp [add_comm]

end Entries

end FlowRecovery.PairMap
